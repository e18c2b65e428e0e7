/-
BrokerExam/Proofs/Wire/Below.lean

What is written below a path.  The segments that lead to a part of a message are
those of no other part, so all that stands below them is that part, and it stands
in one piece.

Main results: `Holds.items`, and `Holds.infix_bytes`, that the bytes of a part stand
among those of the whole in one piece.
-/
import BrokerExam.Proofs.Field.Apart
import BrokerExam.Proofs.Wire.Arrays

namespace BrokerExam.Encoding

/-- What is written at a path or below it. -/
def below (path : List String) (e : Encoding) : Encoding := e.filter fun l => path.isPrefixOf l.path

section Below

variable {s t : String} {path : List String}

theorem below_root (e : Encoding) : below [] e = e := List.filter_eq_self.2 fun _ _ => rfl

theorem below_append (path : List String) (e e' : Encoding) :
    below path (e ++ e') = below path e ++ below path e' := List.filter_append ..

theorem below_scope (s : String) (path : List String) (e : Encoding) :
    below (s :: path) (scope s e) = scope s (below path e) := by
  rw [below, scope, List.filter_map]
  refine congrArg (scope s) (List.filter_congr fun l _ => ?_)
  rw [Function.comp_apply, List.isPrefixOf_cons_cons, beq_self_eq_true, Bool.true_and]

/-- Nothing below one segment is below another. -/
theorem below_scope_of_ne (h : s ≠ t) (path : List String) (e : Encoding) :
    below (s :: path) (scope t e) = [] := by
  refine List.filter_eq_nil_iff.2 fun l hl => ?_
  obtain ⟨l', -, rfl⟩ := List.mem_map.1 hl
  rw [List.isPrefixOf_iff_prefix]
  exact (Apart.of_head_ne h path l'.path).1

theorem below_leaf_of_ne (h : s ≠ t) (path : List String) (v : Value) :
    below (s :: path) (leaf t v) = [] := below_scope_of_ne h path [⟨[], v⟩]

/-- The items from one index on are at no index before it. -/
theorem below_itemsFrom_of_lt (name : String) {i j : Nat} (h : i < j) (path : List String)
    (es : List Encoding) : below (indexed name i :: path) (itemsFrom name j es) = [] := by
  induction es generalizing j with
  | nil => rfl
  | cons e es ih =>
    have other : indexed name i ≠ indexed name j := fun same => Nat.ne_of_lt h (indexed_inj same)
    rw [itemsFrom, below_append, below_scope_of_ne other, List.nil_append, ih (Nat.lt_succ_of_lt h)]

end Below

/-! ### Parts -/

/-- All that is written below the path is the part, in one piece. -/
structure Holds (e : Encoding) (path : List String) (part : Encoding) : Prop where
  below : e.below path = path.foldr scope part
  piece : path.foldr scope part <:+: e

namespace Holds

variable {e e' part : Encoding} {s : String} {path : List String}

theorem root (e : Encoding) : e.Holds [] e := ⟨below_root e, List.infix_rfl⟩

theorem scope (s : String) (h : e.Holds path part) :
    (Encoding.scope s e).Holds (s :: path) part where
  below := (below_scope s path e).trans (congrArg (Encoding.scope s) h.below)
  piece := h.piece.map _

theorem append_left (h : e.Holds path part) (other : e'.below path = []) :
    (e ++ e').Holds path part where
  below := by rw [below_append, other, List.append_nil, h.below]
  piece := h.piece.trans (List.prefix_append e e').isInfix

theorem append_right (h : e.Holds path part) (other : e'.below path = []) :
    (e' ++ e).Holds path part where
  below := by rw [below_append, other, List.nil_append, h.below]
  piece := h.piece.trans (List.suffix_append e' e).isInfix

theorem itemsFrom (name : String) {es : List Encoding} {i : Nat} (he : es[i]? = some e)
    (h : e.Holds path part) (j : Nat) :
    (Encoding.itemsFrom name j es).Holds (indexed name (j + i) :: path) part := by
  induction es generalizing i j with
  | nil => cases he
  | cons first es ih =>
    cases i with
    | zero =>
      obtain rfl : first = e := Option.some.inj he
      exact (h.scope _).append_left (below_itemsFrom_of_lt name (Nat.lt_succ_self j) path es)
    | succ i =>
      -- the first item is not the one, and the rest is counted from one more on
      have next : j + (i + 1) = j + 1 + i := by omega
      have other : indexed name (j + 1 + i) ≠ indexed name j := fun same => by
        have := indexed_inj same
        omega
      rw [next]
      exact (ih he (j + 1)).append_right (below_scope_of_ne other path first)

/-- An item is what is written below its index. -/
theorem items (name : String) {es : List Encoding} {i : Nat} (he : es[i]? = some e)
    (h : e.Holds path part) : (Encoding.items name es).Holds (indexed name i :: path) part := by
  rw [items_eq_itemsFrom]
  have item := itemsFrom name he h 0
  rwa [Nat.zero_add] at item

theorem bytes_foldr_scope (path : List String) (part : Encoding) :
    (path.foldr Encoding.scope part).bytes = part.bytes := by
  induction path with
  | nil => rfl
  | cons s path ih => rw [List.foldr_cons, bytes_scope, ih]

theorem bytes_below (h : e.Holds path part) : (e.below path).bytes = part.bytes := by
  rw [h.below, bytes_foldr_scope]

theorem infix_bytes (h : e.Holds path part) : part.bytes <:+: e.bytes := by
  obtain ⟨front, back, rfl⟩ := h.piece
  refine ⟨bytes front, bytes back, ?_⟩
  rw [bytes_append, bytes_append, bytes_foldr_scope]

end Holds
end BrokerExam.Encoding
