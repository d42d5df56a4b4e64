import Ccos.Lib.Ring
import Mathlib.Data.Fin.VecNotation

/-! Cutting an intrusive list of `list/list.c` in two at one of its nodes. -/

namespace Ccos

open Lib

variable {Node : Type*} [DecidableEq Node]

/-- A node on its own is a list without nodes. -/
def initListHead (node : Node) (links : RingLinks Node) : RingLinks Node :=
  setPrev node node (setNext node node links)

def listIsEmpty (head : Node) (links : RingLinks Node) : Bool :=
  (links head).next == head

def listIsSingular (head : Node) (links : RingLinks Node) : Bool :=
  !listIsEmpty head links && (links head).next == (links head).prev

def listCutPosition (list head entry : Node) (links : RingLinks Node) : RingLinks Node :=
  if listIsEmpty head links then initListHead list links
  else if listIsSingular head links && ((links head).next != entry && head != entry) then
    initListHead list links
  else if entry = head then
    let links := setNext list (links head).next links
    let links := setPrev list (links head).prev links
    let links := setPrev (links list).next list links
    let links := setNext (links list).prev list links
    initListHead head links
  else
    let links := setNext list (links head).next links
    let links := setPrev list (links entry).prev links
    let links := setPrev (links list).next list links
    let links := setNext (links list).prev list links
    let links := setNext head entry links
    setPrev entry head links

variable {links : RingLinks Node} {list head entry : Node} {left right : List Node}
  (ring : Ring links head (left ++ entry :: right))
  (outside : list ∉ head :: (left ++ entry :: right))
include ring outside

/-- A cut behind the first node makes three pairs of neighbours. -/
theorem listCutPosition_eq {first : Node} {rest : List Node} (more : left = first :: rest) :
    listCutPosition list head entry links =
      relink head entry (relink list first (relink (links entry).prev list links)) := by
  subst more
  have nodup := ring.nodup
  obtain ⟨front, behind⟩ := Chain.append.mp ring.chain
  have next : (links head).next = first := front.1
  have last := behind.prev_mem (show head ∈ right ++ [head] by simp)
  have before := front.prev_mem (show entry ∈ first :: rest ++ [entry] by simp)
  have plain : listIsEmpty head links = false ∧ listIsSingular head links = false := by
    simp only [listIsSingular, listIsEmpty, next]
    grind
  simp only [listCutPosition, plain, next, Bool.false_eq_true, if_false, Bool.false_and]
  rw [if_neg (by grind)]
  funext node
  simp only [relink, setNext, setPrev, Function.update_apply]
  grind

/-- A cut at the first node leaves the new list with the old head at its end. -/
theorem listCutPosition_first (start : left = []) :
    (listCutPosition list head entry links list).prev = head := by
  subst start
  have nodup := ring.nodup
  obtain ⟨next, prev, _⟩ := ring.chain
  simp only [listCutPosition, listIsSingular, listIsEmpty, setNext, setPrev, Function.update_apply]
  grind

/-- A cut leaves the nodes before the one given in the new list and the others in the old one exactly
if there is a node before. -/
theorem listCutPosition_splits_iff :
    Ring (listCutPosition list head entry links) list left ∧
      Ring (listCutPosition list head entry links) head (entry :: right) ↔ left ≠ [] := by
  have nodup := ring.nodup
  constructor
  · rintro ⟨cut, _⟩ rfl
    have own := cut.chain.2
    rw [listCutPosition_first ring outside rfl] at own
    exact outside (List.mem_cons.mpr (.inl own.symm))
  · intro more
    obtain ⟨first, rest, rfl⟩ := List.exists_cons_of_ne_nil more
    rw [listCutPosition_eq ring outside rfl]
    obtain ⟨⟨_, _, front⟩, behind⟩ := Chain.append.mp ring.chain
    have before := front.prev_mem (show entry ∈ rest ++ [entry] by simp)
    constructor
    · -- The last node before the cut leads to the new head, and the new head to the first node.
      have led := front.lead (by grind) (show list ∉ rest by grind)
      have closed := led.relink (show list ∉ first :: rest by grind)
        (show first ∉ rest ++ [list] by grind)
      have kept := closed.relink (show head ∉ first :: rest by grind)
        (show entry ∉ rest ++ [list] by grind)
      exact ⟨⟨by grind [relink_next], by grind [relink_prev], kept⟩, by grind⟩
    · -- The nodes behind the cut keep their links.
      have led := behind.relink (show (links entry).prev ∉ entry :: right by grind)
        (show list ∉ right ++ [head] by grind)
      have closed := led.relink (show list ∉ entry :: right by grind)
        (show first ∉ right ++ [head] by grind)
      have kept := closed.relink (show head ∉ entry :: right by grind)
        (show entry ∉ right ++ [head] by grind)
      exact ⟨⟨by simp, by simp, kept⟩, by grind⟩

omit ring outside

theorem listCutPosition_splits_second :
    let links : RingLinks (Fin 4) := ![⟨1, 2⟩, ⟨2, 0⟩, ⟨0, 1⟩, ⟨3, 3⟩]
    Ring (listCutPosition 3 0 2 links) 3 [1] ∧ Ring (listCutPosition 3 0 2 links) 0 [2] :=
  (@listCutPosition_splits_iff _ _ _ 3 0 2 [1] [] ⟨⟨rfl, rfl, rfl, rfl, rfl, rfl⟩, by decide⟩
    (by decide)).mpr (by decide)

/-- A list of one node, cut at that node, does not leave an empty list before it. -/
theorem listCutPosition_first_fails :
    ∃ links : RingLinks (Fin 3), Ring links 0 [1] ∧ ¬Ring (listCutPosition 2 0 1 links) 2 [] :=
  ⟨![⟨1, 1⟩, ⟨0, 0⟩, ⟨2, 2⟩], ⟨⟨rfl, rfl, rfl, rfl⟩, by decide⟩,
    fun cut => absurd cut.chain.2 (by decide)⟩

end Ccos
