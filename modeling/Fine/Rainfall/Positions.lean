import Fine.Rainfall.Projected
import Fine.Syntax.Delimiters
import Mathlib

/-!
# Positions in both implementations

The lexer counts lines and columns byte by byte, the projection computes them from newlines.
-/

namespace Fine.Rainfall

open Fine.Syntax
open List hiding lex

def counted (position : SourcePosition) : Position :=
  ⟨position.offset, position.line, position.column⟩

/-- An expression stands from the begin of one of its tokens to the end of one. -/
theorem Derives.ends {level : Nat} {tokens : List Syntax.Token} {expression : Expr}
    (derives : Derives NodeInfo.Exact level tokens expression) :
    ∃ first ∈ tokens, ∃ last ∈ tokens, expression.span = joined first.span last.span := by
  induction derives with
  | name _ placed | boolean _ placed | integer _ _ _ placed =>
    exact ⟨_, mem_singleton_self _, _, mem_singleton_self _, placed⟩
  | hole _ _ placed | negative _ _ _ _ placed | call _ _ _ _ _ placed | tuple _ _ _ _ _ placed
  | conditional _ _ _ _ _ _ _ _ _ placed => exact ⟨_, mem_cons_self, _, by simp, placed⟩
  | group _ _ _ ih =>
    obtain ⟨first, one, last, two, same⟩ := ih
    exact ⟨first, by simp [one], last, by simp [two], same⟩
  | operand _ ih => exact ih
  | operation _ _ _ _ placed left right =>
    obtain ⟨first, one, _, _, same⟩ := left
    obtain ⟨_, _, last, two, same'⟩ := right
    refine ⟨first, by simp [one], last, by simp [two], Eq.trans placed ?_⟩
    rw [same, same']
    rfl

end Fine.Rainfall
