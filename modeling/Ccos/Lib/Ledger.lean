import Mathlib.Data.Set.Basic
import Mathlib.Data.List.Pairwise
import Mathlib.Tactic.Tauto

/-! Grants of exclusive items from a common stock, and what any order of grants and returns keeps. -/

namespace Ccos.Lib

variable {Item : Type*}

/-- The items that are unavailable, and what each outstanding grant still holds. -/
structure Ledger (Item : Type*) where
  marked : Set Item
  held : List (List Item)

/-- Every item some outstanding grant still holds. -/
def Ledger.Holds (ledger : Ledger Item) (item : Item) : Prop :=
  ∃ grant ∈ ledger.held, item ∈ grant

/-- What remains of the outstanding grants once the selected items are returned. -/
def returnItems (returned : Item → Bool) (held : List (List Item)) : List (List Item) :=
  held.map fun grant => grant.filter fun item => !returned item

/-- One change of a ledger: a refusal, a grant of available items, or a return of held ones. -/
inductive Ledger.Move : Ledger Item → Ledger Item → Prop
  | refuse (ledger : Ledger Item) : Move ledger ledger
  | grant (ledger : Ledger Item) (items : List Item)
      (available : ∀ item ∈ items, item ∉ ledger.marked) :
      Move ledger ⟨ledger.marked ∪ {item | item ∈ items}, items :: ledger.held⟩
  | giveBack (ledger : Ledger Item) (returned : Item → Bool)
      (owned : ∀ item, returned item → ledger.Holds item) :
      Move ledger ⟨ledger.marked \ {item | returned item}, returnItems returned ledger.held⟩

/-- The marked items are the reserved ones and the held ones, and nothing is held twice. -/
structure Ledger.Sound (reserved : Set Item) (ledger : Ledger Item) : Prop where
  marked_iff : ∀ item, item ∈ ledger.marked ↔ item ∈ reserved ∨ ledger.Holds item
  unreserved : ∀ item, ledger.Holds item → item ∉ reserved
  disjoint : ledger.held.Pairwise List.Disjoint

/-- An item survives a return exactly when it was held and is not among the returned items. -/
theorem holds_returnItems (marked : Set Item) (returned : Item → Bool) (held : List (List Item))
    (item : Item) :
    Ledger.Holds ⟨marked, returnItems returned held⟩ item ↔
      (∃ grant ∈ held, item ∈ grant) ∧ ¬returned item := by
  simp only [Ledger.Holds, returnItems, List.mem_map, exists_exists_and_eq_and, List.mem_filter,
    Bool.not_eq_true', Bool.not_eq_true]
  constructor
  · rintro ⟨grant, member, inside, kept⟩
    exact ⟨⟨grant, member, inside⟩, kept⟩
  · rintro ⟨⟨grant, member, inside⟩, kept⟩
    exact ⟨grant, member, inside, kept⟩

/-- Every move keeps a sound ledger sound. -/
theorem Ledger.Move.sound {reserved : Set Item} {before after : Ledger Item}
    (move : Ledger.Move before after) (sound : before.Sound reserved) :
    after.Sound reserved := by
  cases move with
  | refuse => exact sound
  | grant items available =>
    -- Available items are outside the marked set, hence neither reserved nor held.
    have holds (item : Item) : Ledger.Holds
        ⟨before.marked ∪ {item | item ∈ items}, items :: before.held⟩ item ↔
        item ∈ items ∨ before.Holds item := by
      simp [Ledger.Holds]
    refine ⟨fun item => ?_, fun item held => ?_, ?_⟩
    · rw [holds, Set.mem_union, sound.marked_iff, Set.mem_ofPred_eq]
      tauto
    · rcases (holds item).mp held with new | old
      · exact fun kept => available item new ((sound.marked_iff item).mpr (.inl kept))
      · exact sound.unreserved item old
    · refine List.Pairwise.cons (fun grant member => ?_) sound.disjoint
      intro item new old
      exact available item new ((sound.marked_iff item).mpr (.inr ⟨grant, member, old⟩))
  | giveBack returned owned =>
    refine ⟨fun item => ?_, fun item held => ?_, ?_⟩
    · rw [holds_returnItems, Set.mem_sdiff, sound.marked_iff, Set.mem_ofPred_eq]
      -- A reserved item is held by nobody, so it cannot be among the returned ones.
      have kept : item ∈ reserved → ¬returned item :=
        fun inside back => sound.unreserved item (owned item back) inside
      simp only [Ledger.Holds]
      tauto
    · exact sound.unreserved item ((holds_returnItems _ returned before.held item).mp held).1
    · rw [returnItems, List.pairwise_map]
      refine sound.disjoint.imp fun apart => ?_
      intro item first second
      exact apart (List.mem_filter.mp first).1 (List.mem_filter.mp second).1

theorem Ledger.sound_start (marked : Set Item) : Ledger.Sound marked ⟨marked, []⟩ := by
  refine ⟨?_, ?_, List.Pairwise.nil⟩ <;> simp [Ledger.Holds]

end Ccos.Lib
