/-!
# Text — Blank

White space, after the Unicode property `White_Space`: the character test, the removal of blanks
at both ends of a text (`trim`), and texts that hold nothing else (`isBlank`).  Cells, operator
phrases and marker rows are all read through `trim`.
-/

namespace DecisionTable.Text

/-- The characters of the property `White_Space`. -/
def isBlankChar (c : Char) : Bool :=
  (0x09 ≤ c.toNat && c.toNat ≤ 0x0D) || c.toNat == 0x20 || c.toNat == 0x85 || c.toNat == 0xA0 ||
  c.toNat == 0x1680 || (0x2000 ≤ c.toNat && c.toNat ≤ 0x200A) || c.toNat == 0x2028 ||
  c.toNat == 0x2029 || c.toNat == 0x202F || c.toNat == 0x205F || c.toNat == 0x3000

/-- Drops the blanks at the end. -/
def trimEnd (cs : List Char) : List Char :=
  (cs.reverse.dropWhile isBlankChar).reverse

/-- Drops the blanks at both ends. -/
def trimChars (cs : List Char) : List Char :=
  trimEnd (cs.dropWhile isBlankChar)

/-- Drops the blanks at both ends of a text. -/
def trim (s : String) : String :=
  String.ofList (trimChars s.toList)

/-- A text of blanks only, the empty text included. -/
def isBlank (s : String) : Bool :=
  s.toList.all isBlankChar

/-- A text that is not blank, trimmed. -/
def nonBlank? (s : String) : Option String :=
  if isBlank s then none else some (trim s)

@[simp] theorem toList_trim (s : String) : (trim s).toList = trimChars s.toList := by
  simp [trim]

theorem dropWhile_eq_nil_iff_all (cs : List Char) :
    cs.dropWhile isBlankChar = [] ↔ cs.all isBlankChar = true := by
  induction cs with
  | nil => simp
  | cons c cs ih => by_cases h : isBlankChar c = true <;> simp_all

theorem trimEnd_eq_nil_iff (cs : List Char) : trimEnd cs = [] ↔ cs.all isBlankChar = true := by
  simp only [trimEnd, List.reverse_eq_nil_iff, dropWhile_eq_nil_iff_all, List.all_reverse]

/-- What `trim` leaves is empty exactly when there was nothing but blanks. -/
theorem trimChars_eq_nil_iff (cs : List Char) :
    trimChars cs = [] ↔ cs.all isBlankChar = true := by
  simp only [trimChars, trimEnd_eq_nil_iff]
  induction cs with
  | nil => rfl
  | cons c cs ih =>
    by_cases h : isBlankChar c = true
    · simpa [List.dropWhile_cons, h] using ih
    · simp [h]

theorem trim_eq_empty_iff (s : String) : trim s = "" ↔ isBlank s = true := by
  rw [← String.toList_inj, toList_trim, isBlank]
  exact trimChars_eq_nil_iff s.toList

end DecisionTable.Text
