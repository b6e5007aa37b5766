/-!
# Text — Match

Comparison of texts where the case of ASCII letters does not count, and the search for one text
in another by code points.
-/

namespace DecisionTable.Text

/-- Equality up to the case of ASCII letters; all other characters count as they are. -/
def sameIgnoringCase (s t : String) : Bool :=
  s.toList.map Char.toLower == t.toList.map Char.toLower

/-- The pattern stands at the start. -/
def startsWith (s pattern : String) : Bool :=
  pattern.toList.isPrefixOf s.toList

/-- The pattern stands at the end. -/
def endsWith (s pattern : String) : Bool :=
  pattern.toList.isSuffixOf s.toList

/-- The pattern stands at the start of some tail. -/
def occursIn (pattern : List Char) : List Char → Bool
  | [] => pattern.isEmpty
  | c :: cs => pattern.isPrefixOf (c :: cs) || occursIn pattern cs

/-- The pattern stands somewhere; the empty pattern stands everywhere. -/
def contains (s pattern : String) : Bool :=
  occursIn pattern.toList s.toList

theorem sameIgnoringCase_refl (s : String) : sameIgnoringCase s s = true := by
  simp [sameIgnoringCase]

theorem sameIgnoringCase_comm (s t : String) : sameIgnoringCase s t = sameIgnoringCase t s := by
  rw [sameIgnoringCase, sameIgnoringCase, Bool.beq_comm]

theorem occursIn_iff (pattern cs : List Char) :
    occursIn pattern cs = true ↔ pattern <:+: cs := by
  induction cs with
  | nil => simp [occursIn]
  | cons c cs ih => simp [occursIn, ih, List.infix_cons_iff]

end DecisionTable.Text
