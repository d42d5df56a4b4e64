import Mathlib.Data.List.Basic

/-! Computations over a state that record events and may never return, with rules for the events
they record and for the states they leave. -/

namespace Ccos.Lib

/-- A computation yields the events in order, the state it leaves, and a result if it returns. -/
def Logged (State Event Result : Type) : Type :=
  State → List Event × State × Option Result

namespace Logged

variable {State Event Result Next : Type}

/-- Run the second computation where the first one returned, and stop where it did not. -/
def andThen (first : Logged State Event Result) (second : Result → Logged State Event Next) :
    Logged State Event Next := fun before =>
  match first before with
  | (events, after, none) => (events, after, none)
  | (events, after, some result) =>
    let (more, last, next) := second result after
    (events ++ more, last, next)

instance : Monad (Logged State Event) where
  pure result := fun state => ([], state, some result)
  bind := andThen

def record (event : Event) : Logged State Event Unit :=
  fun state => ([event], state, some ())

def read : Logged State Event State :=
  fun state => ([], state, some state)

def change (update : State → State) : Logged State Event Unit :=
  fun state => ([], update state, some ())

def stop : Logged State Event Result :=
  fun state => ([], state, none)

/-- Act on the state without an event; nothing means that the action never returns. -/
def act (action : State → Option (Result × State)) : Logged State Event Result :=
  fun state => match action state with
    | some (result, after) => ([], after, some result)
    | none => ([], state, none)

def onlyIf (condition : Prop) [Decidable condition] (computation : Logged State Event Unit) :
    Logged State Event Unit :=
  if condition then computation else pure ()

/-- Every event that the computation records from a state has a property. -/
def Emits (property : Event → Prop) (computation : Logged State Event Result) (state : State) :
    Prop :=
  ∀ event ∈ (computation state).1, property event

/-- A computation without events, from any state. -/
@[grind =] def Silent (computation : Logged State Event Result) : Prop :=
  ∀ state, (computation state).1 = []

variable {property : Event → Prop} {state : State}

theorem Silent.emits {computation : Logged State Event Result} (silent : computation.Silent) :
    Emits property computation state := by
  intro event member
  rw [silent state] at member
  cases member

/-- The events of a sequence are those of the first part and, if it returned, of the second. -/
theorem events_bind (first : Logged State Event Result)
    (second : Result → Logged State Event Next) (state : State) :
    ((first >>= second) state).1 = (first state).1 ++
      match first state with
      | (_, _, none) => []
      | (_, after, some result) => (second result after).1 := by
  change (andThen first second state).1 = _
  unfold andThen
  grind

@[simp] theorem read_bind (next : State → Logged State Event Next) (state : State) :
    (read >>= next) state = next state state := rfl

@[simp] theorem pure_bind (result : Result) (next : Result → Logged State Event Next) :
    (Pure.pure result >>= next) = next result := rfl

variable {Last : Type}

variable {second : Result → Logged State Event Next} {first : Logged State Event Result}

/-- Silent work at the end adds no event. -/
theorem events_bind_silent (silent : ∀ result, (second result).Silent) (state : State) :
    ((first >>= second) state).1 = (first state).1 := by
  rw [events_bind]
  grind

/-- A sequence emits what its parts emit. -/
theorem Emits.bind (holds : Emits property first state)
    (next : ∀ result after, (first state).2 = (after, some result) →
      Emits property (second result) after) : Emits property (first >>= second) state := by
  intro event member
  rw [events_bind] at member
  rcases List.mem_append.mp member with earlier | later
  · exact holds event earlier
  · -- The second part runs only from where the first one returned.
    rcases ran : first state with ⟨events, after, _ | result⟩
    · simp [ran] at later
    · simp only [ran] at later
      exact next result after (by rw [ran]) event later

theorem Emits.record {event : Event} (holds : property event) :
    Emits property (Logged.record event) state := by
  intro other member
  rw [List.mem_singleton.mp member]
  exact holds

theorem Silent.pure (result : Result) :
    Silent (Pure.pure result : Logged State Event Result) := fun _ => rfl

theorem Silent.read : Silent (Logged.read : Logged State Event State) := fun _ => rfl

theorem Silent.change (update : State → State) :
    Silent (Logged.change update : Logged State Event Unit) := fun _ => rfl

theorem Silent.stop : Silent (Logged.stop : Logged State Event Result) := fun _ => rfl

theorem Silent.act (action : State → Option (Result × State)) :
    Silent (Logged.act action : Logged State Event Result) := by
  intro state
  unfold Logged.act
  split <;> rfl

variable {computation : Logged State Event Unit}

/-- A conditional computation is silent when the computation is. -/
theorem Silent.onlyIf (silent : computation.Silent) (condition : Prop) [Decidable condition] :
    (Logged.onlyIf condition computation).Silent := by
  unfold Logged.onlyIf
  split
  · exact silent
  · exact .pure ()

/-- A conditional computation emits what the computation emits under the condition. -/
theorem Emits.onlyIf {condition : Prop} [Decidable condition]
    (holds : condition → Emits property computation state) :
    Emits property (Logged.onlyIf condition computation) state := by
  unfold Logged.onlyIf
  split
  · rename_i met
    exact holds met
  · exact (Silent.pure ()).emits

/-- A sequence of silent computations is silent. -/
theorem Silent.bind (silent : first.Silent) (next : ∀ result, (second result).Silent) :
    (first >>= second).Silent := by
  intro state
  rw [events_bind, silent state]
  split
  · rfl
  · exact next _ _

/-- What follows a change decides whether the sequence is silent. -/
theorem Silent.changed {update : State → State} {rest : Unit → Logged State Event Next}
    (silent : (rest ()).Silent) : (Logged.change update >>= rest).Silent :=
  (Silent.change update).bind fun _ => silent

section Gives

variable {post : Result → State → Prop} {leaves : Unit → State → Prop} {event : Event}
  {update : State → State} {action : State → Option (Result × State)}

/-- If the computation returns from a state, its result and the state it leaves have a property. -/
@[grind =] def Gives (computation : Logged State Event Result) (state : State)
    (post : Result → State → Prop) : Prop :=
  ∀ result, (computation state).2.2 = some result → post result (computation state).2.1

/-- The state that a computation leaves if it returns. -/
def finish (computation : Logged State Event Result) (state : State) : Option State :=
  (computation state).2.2.map fun _ => (computation state).2.1

variable {computation : Logged State Event Result} {after : State}

/-- What a computation gives holds where it finishes. -/
theorem Gives.finish (gives : Gives computation state post)
    (done : computation.finish state = some after) : ∃ result, post result after := by
  simp only [Logged.finish, Option.map_eq_some_iff] at done
  grind

/-- What holds of the state alone holds where the computation finishes. -/
theorem Gives.finishes {post : State → Prop} (gives : Gives computation state fun _ => post)
    (done : computation.finish state = some after) : post after :=
  (gives.finish done).elim fun _ holds => holds

/-- A weaker property is given as well. -/
theorem Gives.mono {weaker : Result → State → Prop} (gives : Gives computation state post)
    (implies : ∀ result after, post result after →
      weaker result after) : Gives computation state weaker :=
  fun result returned => implies _ _ (gives result returned)

/-- A sequence gives what its second part gives from where the first one returned. -/
theorem Gives.bind {post : Next → State → Prop}
    (gives : Gives first state fun result after => Gives (second result) after post) :
    Gives (first >>= second) state post := by
  -- The second part starts in the state that the first one left.
  intro next returned
  change (andThen first second state).2.2 = some next at returned
  change post next (andThen first second state).2.1
  unfold andThen at returned ⊢
  grind

theorem Gives.pure {result : Result} (holds : post result state) :
    Gives (Pure.pure result : Logged State Event Result) state post := by
  rintro _ ⟨⟩
  exact holds

theorem Gives.read {post : State → State → Prop} (holds : post state state) :
    Gives (Logged.read : Logged State Event State) state post := by
  rintro _ ⟨⟩
  exact holds

theorem Gives.record (holds : leaves () state) : Gives (Logged.record event) state leaves := by
  rintro _ ⟨⟩
  exact holds

theorem Gives.change (holds : leaves () (update state)) :
    Gives (Logged.change update : Logged State Event Unit) state leaves := by
  rintro _ ⟨⟩
  exact holds

theorem Gives.stop : Gives (Logged.stop : Logged State Event Result) state post :=
  fun _ => nofun

/-- An action gives what it returns. -/
theorem Gives.act
    (holds : ∀ result after, action state = some (result, after) → post result after) :
    Gives (Logged.act action : Logged State Event Result) state post := by
  -- An action that does not return leaves nothing to show.
  intro result returned
  unfold Logged.act at returned ⊢
  grind

/-- A conditional computation gives what the computation gives, or nothing happens. -/
theorem Gives.onlyIf {condition : Prop} [Decidable condition] {only : Logged State Event Unit}
    (holds : condition → Gives only state leaves) (skips : ¬condition → leaves () state) :
    Gives (Logged.onlyIf condition only) state leaves := by
  unfold Logged.onlyIf
  split
  · rename_i met
    exact holds met
  · rename_i unmet
    exact .pure (skips unmet)

/-- A computation that leaves a part of the state as it is. -/
@[grind =]
def Keeps {Part : Type*} (part : State → Part) (computation : Logged State Event Result) : Prop :=
  ∀ state, Gives computation state fun _ after => part after = part state

/-- After a computation that keeps a part, the rest starts from a state with the same part. -/
theorem Gives.bind_keeps {Part : Type*} {part : State → Part} {post : Next → State → Prop}
    (kept : first.Keeps part)
    (gives : ∀ result after, part after = part state → Gives (second result) after post) :
    Gives (first >>= second) state post :=
  .bind ((kept state).mono gives)

section Keeps

variable {Part : Type*} {part : State → Part}

theorem Keeps.read : Keeps part (Logged.read : Logged State Event State) := fun _ => .read rfl

theorem Keeps.record (event : Event) :
    Keeps part (Logged.record event : Logged State Event Unit) := fun _ => .record rfl

/-- An action keeps a part that it does not touch. -/
theorem Keeps.act (kept : ∀ state result after, action state = some (result, after) →
      part after = part state) : Keeps part (Logged.act action : Logged State Event Result) :=
  fun state => .act (kept state)

/-- A sequence keeps what both parts keep. -/
theorem Keeps.bind (kept : first.Keeps part) (next : ∀ result, (second result).Keeps part) :
    (first >>= second).Keeps part :=
  fun _ => .bind_keeps kept fun result after same =>
    (next result after).mono fun _ _ later => later.trans same

theorem Keeps.onlyIf {computation : Logged State Event Unit} (kept : computation.Keeps part)
    (condition : Prop) [Decidable condition] : (Logged.onlyIf condition computation).Keeps part :=
  fun state => .onlyIf (fun _ => kept state) fun _ => rfl

end Keeps

end Gives

section Yields

variable {post : Result → State → Prop} {leaves : Unit → State → Prop} {event : Event}

/-- The computation returns from a state, and its result and the state it leaves have a property. -/
@[grind =] def Yields (computation : Logged State Event Result) (state : State)
    (post : Result → State → Prop) : Prop :=
  ∃ result, (computation state).2.2 = some result ∧ post result (computation state).2.1

/-- A weaker property is yielded as well. -/
theorem Yields.mono {computation : Logged State Event Result} {weaker : Result → State → Prop}
    (yields : Yields computation state post) (implies : ∀ result after, post result after →
      weaker result after) : Yields computation state weaker := by
  grind

/-- A sequence yields what its second part yields from where the first one returned. -/
theorem Yields.bind {post : Next → State → Prop}
    (yields : Yields first state fun result after => Yields (second result) after post) :
    Yields (first >>= second) state post := by
  obtain ⟨result, returned, next, ended, holds⟩ := yields
  -- Both parts return, the second one from the state that the first one left.
  rcases ran : first state with ⟨events, middle, _ | found⟩
  · simp [ran] at returned
  · obtain rfl : found = result := by simpa [ran] using returned
    rw [ran] at ended holds
    refine ⟨next, ?_, ?_⟩
    · change (andThen first second state).2.2 = _
      simpa [andThen, ran] using ended
    · change post next (andThen first second state).2.1
      simpa [andThen, ran] using holds

variable {result : Result}

theorem Yields.pure (holds : post result state) :
    Yields (Pure.pure result : Logged State Event Result) state post :=
  ⟨result, rfl, holds⟩

theorem Yields.read {post : State → State → Prop} (holds : post state state) :
    Yields (Logged.read : Logged State Event State) state post :=
  ⟨state, rfl, holds⟩

theorem Yields.change {update : State → State} (holds : leaves () (update state)) :
    Yields (Logged.change update : Logged State Event Unit) state leaves :=
  ⟨(), rfl, holds⟩

/-- An action that returns yields what it returns. -/
theorem Yields.act {action : State → Option (Result × State)} {after : State}
    (returns : action state = some (result, after)) (holds : post result after) :
    Yields (Logged.act action : Logged State Event Result) state post := by
  refine ⟨result, ?_, ?_⟩
  · simp [Logged.act, returns]
  · simpa [Logged.act, returns] using holds

end Yields

end Logged

end Ccos.Lib
