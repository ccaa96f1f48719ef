/-!
# Blank characters

What separates the tokens of a source file: the characters with the Unicode property `White_Space`.
The set is wider than core's `Char.isWhitespace`, which knows four of them.
-/

namespace ServiceCatalog.Text

/-- Whether a character has the property `White_Space`. -/
def isBlank (c : Char) : Bool :=
  let n := c.toNat
  (9 ≤ n && n ≤ 13) || n == 0x20 || n == 0x85 || n == 0xA0 || n == 0x1680 ||
    (0x2000 ≤ n && n ≤ 0x200A) || n == 0x2028 || n == 0x2029 || n == 0x202F || n == 0x205F ||
    n == 0x3000

/-- Every blank that core knows is a blank. -/
theorem isBlank_of_isWhitespace {c : Char} (h : c.isWhitespace = true) : isBlank c = true := by
  simp only [Char.isWhitespace, Bool.or_eq_true, decide_eq_true_eq] at h
  rcases h with ((rfl | rfl) | rfl) | rfl <;> decide

/-- A line feed is a blank. -/
@[simp] theorem isBlank_newline : isBlank '\n' = true := by decide

end ServiceCatalog.Text
