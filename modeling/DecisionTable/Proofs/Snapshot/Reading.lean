import DecisionTable.Snapshot.Payload

/-!
# Snapshot — Reading what was written

Every reader of a part of a snapshot gives back the part that its writer wrote, and leaves over
exactly what follows.

* `Decoder.Reads`: a decoder reads some bytes as a value, whatever follows them.  Decoders that
  run one after the other read bytes that stand one after the other (`Reads.bind`).
* `Payload.Fits`: fewer than `2^64` bytes.  Lengths and counts are numbers of 64 bits, so the
  statements ask this of the bytes of a part, from where it comes down to its smaller parts.
* `Decoder.Undoes`: a reader undoes a writer if it reads what the writer wrote, if that fits.  Since
  no part is written without bytes, a list has no more items than bytes.
* `Payload.reads_encode`: the payload of a rule set is read as its parts.
-/

namespace DecisionTable

/-! ### Decoders one after the other -/

namespace Decoder

variable {α β : Type}

/-- The decoder reads the bytes as the value and leaves over what follows. -/
def Reads (d : Decoder α) (bs : List UInt8) (a : α) : Prop :=
  ∀ rest, d (bs ++ rest) = some (a, rest)

namespace Reads

theorem done (a : α) : (Decoder.done a).Reads [] a :=
  fun _ => rfl

/-- What depends on the first part is read from the bytes behind it. -/
theorem bind {d : Decoder α} {next : α → Decoder β} {bs cs : List UInt8} {a : α} {b : β}
    (h : d.Reads bs a) (hn : (next a).Reads cs b) : (d >>= next).Reads (bs ++ cs) b := by
  intro rest
  have hd : d (bs ++ cs ++ rest) = some (a, cs ++ rest) := by rw [List.append_assoc, h]
  change (d (bs ++ cs ++ rest)).bind (fun p => next p.1 p.2) = some (b, rest)
  rw [hd]
  exact hn rest

/-- The last part completes the value. -/
theorem last {d : Decoder α} {bs : List UInt8} {a : α} (h : d.Reads bs a) (f : α → β) :
    (d >>= fun a => Decoder.done (f a)).Reads bs (f a) := by
  rw [← List.append_nil bs]
  exact h.bind (done (f a))

end Reads

end Decoder

namespace Payload

theorem pos_append {as : List UInt8} (h : 0 < as.length) (bs : List UInt8) :
    0 < (as ++ bs).length := by
  rw [List.length_append]
  exact Nat.add_pos_left h _

/-- Fewer than `2^64` bytes. -/
def Fits (bs : List UInt8) : Prop :=
  bs.length < 1 <<< 64

theorem Fits.append {as bs : List UInt8} (h : Fits (as ++ bs)) : Fits as ∧ Fits bs := by
  rw [Fits, List.length_append] at h
  exact ⟨Nat.lt_of_le_of_lt (Nat.le_add_right _ _) h, Nat.lt_of_le_of_lt (Nat.le_add_left _ _) h⟩

end Payload

/-- The reader reads what the writer wrote, and nothing is written without bytes. -/
structure Decoder.Undoes {α : Type} (get : Decoder α) (put : α → List UInt8) : Prop where
  pos : ∀ a, 0 < (put a).length
  reads : ∀ a, Payload.Fits (put a) → get.Reads (put a) a

namespace Payload

variable {α : Type}

/-! ### Numbers, texts and options -/

theorem length_putNat_pos (n : Nat) : 0 < (putNat n).length := by
  rw [putNat, Varint.encode]
  split
  · exact Nat.one_pos
  · split
    · exact Nat.succ_pos _
    · split <;> exact Nat.succ_pos _

theorem reads_putNat {n : Nat} (h : n < 1 <<< 64) : getNat.Reads (putNat n) n :=
  Varint.decode?_encode h

theorem reads_takeBytes (bs : List UInt8) : Decoder.Reads (takeBytes? bs.length) bs bs :=
  takeBytes?_append bs

theorem undoes_putText : getText.Undoes putText where
  pos _ := pos_append (length_putNat_pos _) _
  reads s h := by
    obtain ⟨-, hbytes⟩ := h.append
    -- the last step takes no bytes of its own: it decodes those that were taken
    have htext : Decoder.Reads
        (fun rest => (Text.Utf8.decode? (Text.Utf8.encode s)).map fun s => (s, rest)) [] s := by
      intro rest
      rw [Text.Utf8.decode?_encode]
      rfl
    have hread : getText.Reads (putNat _ ++ (Text.Utf8.encode s ++ [])) s :=
      (reads_putNat hbytes).bind ((reads_takeBytes (Text.Utf8.encode s)).bind htext)
    rwa [List.append_nil] at hread

theorem undoes_putOption : getOption.Undoes putOption where
  pos
    | none => Nat.one_pos
    | some _ => Nat.succ_pos _
  reads
    | none, _ => fun _ => rfl
    | some s, h => by
        intro rest
        have hput : Fits ([1] ++ putText s) := h
        have hs : Fits (putText s) := hput.append.2
        change (getText (putText s ++ rest)).map (fun p => (some p.1, p.2)) = _
        rw [undoes_putText.reads s hs]
        rfl

/-! ### Lists and maps -/

theorem length_le_length_flatMap {put : α → List UInt8} (h : ∀ a, 0 < (put a).length)
    (as : List α) : as.length ≤ (as.flatMap put).length := by
  induction as with
  | nil => exact Nat.le_refl 0
  | cons a as ih =>
      rw [List.length_cons, List.flatMap_cons, List.length_append, Nat.add_comm]
      exact Nat.add_le_add (h a) ih

theorem reads_repeated {get : Decoder α} {put : α → List UInt8} (h : get.Undoes put)
    {as : List α} (hf : Fits (as.flatMap put)) :
    (get.repeated as.length).Reads (as.flatMap put) as := by
  induction as with
  | nil => exact .done []
  | cons a as ih =>
      rw [List.flatMap_cons] at hf ⊢
      obtain ⟨ha, has⟩ := hf.append
      exact (h.reads a ha).bind ((ih has).last (fun as => a :: as))

/-- The bytes of a list are at least as many as its items. -/
theorem Fits.count {get : Decoder α} {put : α → List UInt8} (h : get.Undoes put) {as : List α}
    (hf : Fits (putList put as)) : as.length < 1 <<< 64 :=
  Nat.lt_of_le_of_lt (length_le_length_flatMap h.pos as) hf.append.2

/-- **Lists.**  A reader of items gives a reader of lists of them. -/
theorem undoes_putList {get : Decoder α} {put : α → List UInt8} (h : get.Undoes put) :
    (getList get).Undoes (putList put) where
  pos _ := pos_append (length_putNat_pos _) _
  reads _ hf := (reads_putNat (hf.count h)).bind (reads_repeated h hf.append.2)

theorem undoes_entry {get : Decoder α} {put : α → List UInt8} (h : get.Undoes put) :
    Decoder.Undoes (do
      let key ← getText
      let value ← get
      return (key, value)) (fun e : String × α => putText e.1 ++ put e.2) where
  pos e := pos_append (undoes_putText.pos e.1) _
  reads e hf := by
    obtain ⟨hkey, hvalue⟩ := hf.append
    exact (undoes_putText.reads e.1 hkey).bind ((h.reads e.2 hvalue).last _)

/-- **Maps.**  The entries of a map come in the order of their keys and make up the map again. -/
theorem undoes_putMap {get : Decoder α} {put : α → List UInt8} (h : get.Undoes put) :
    (getMap get).Undoes (putMap put) where
  pos m := (undoes_putList (undoes_entry h)).pos m.entries
  reads m hf := by
    have hlist := ((undoes_putList (undoes_entry h)).reads m.entries hf).last SortedMap.ofList
    rwa [SortedMap.ofList_entries] at hlist

/-! ### Records -/

theorem undoes_putCombinator : getCombinator.Undoes putCombinator where
  pos
    | .all => Nat.one_pos
    | .any => Nat.one_pos
  reads
    | .all, _ => fun _ => rfl
    | .any, _ => fun _ => rfl

theorem undoes_putMetadata : getMetadata.Undoes putMetadata where
  pos m := by
    simp only [putMetadata, List.append_assoc]
    exact pos_append (undoes_putText.pos m.id) _
  reads m h := by
    simp only [putMetadata, List.append_assoc] at h ⊢
    obtain ⟨hid, h⟩ := h.append
    obtain ⟨hclass, h⟩ := h.append
    obtain ⟨hversion, h⟩ := h.append
    obtain ⟨hcombinator, h⟩ := h.append
    obtain ⟨haction, hextra⟩ := h.append
    refine (undoes_putText.reads m.id hid).bind ?_
    refine (undoes_putOption.reads m.className hclass).bind ?_
    refine (undoes_putOption.reads m.version hversion).bind ?_
    refine (undoes_putCombinator.reads m.combinator hcombinator).bind ?_
    refine (undoes_putOption.reads m.generalAction haction).bind ?_
    exact ((undoes_putMap undoes_putText).reads m.extra hextra).last _

theorem undoes_putCell : getCell.Undoes putCell where
  pos c := pos_append (undoes_putText.pos c.column) _
  reads c h := by
    obtain ⟨hcolumn, htext⟩ := h.append
    exact (undoes_putText.reads c.column hcolumn).bind ((undoes_putText.reads c.text htext).last _)

theorem undoes_putRule : getRule.Undoes putRule where
  pos r := by
    simp only [putRule, List.append_assoc]
    exact pos_append (undoes_putText.pos r.index) _
  reads r h := by
    simp only [putRule, List.append_assoc] at h ⊢
    obtain ⟨hindex, h⟩ := h.append
    obtain ⟨hconditions, hactions⟩ := h.append
    refine (undoes_putText.reads r.index hindex).bind ?_
    refine ((undoes_putList undoes_putCell).reads r.conditions hconditions).bind ?_
    exact ((undoes_putList undoes_putCell).reads r.actions hactions).last _

theorem undoes_putColumn : getColumn.Undoes putColumn where
  pos d := pos_append (undoes_putOption.pos d.fieldName) _
  reads d h := by
    obtain ⟨hfield, hoperator⟩ := h.append
    exact (undoes_putOption.reads d.fieldName hfield).bind
      ((undoes_putOption.reads d.operator hoperator).last _)

/-! ### The payload -/

/-- **The payload of a rule set** is read as its parts. -/
theorem reads_encode {rs : RuleSet} (h : Fits (ofRuleSet rs).encode) :
    decoder.Reads (ofRuleSet rs).encode (ofRuleSet rs) := by
  simp only [encode, List.append_assoc] at h ⊢
  -- the two counts in front fit because the lists that they count do
  obtain ⟨-, h⟩ := h.append
  obtain ⟨-, h⟩ := h.append
  obtain ⟨hmetadata, h⟩ := h.append
  obtain ⟨hrules, hcolumns⟩ := h.append
  refine (reads_putNat (Fits.count undoes_putRule hrules)).bind ?_
  refine (reads_putNat (Fits.count (undoes_entry undoes_putColumn) hcolumns)).bind ?_
  refine (undoes_putMetadata.reads rs.metadata hmetadata).bind ?_
  refine ((undoes_putList undoes_putRule).reads rs.rules hrules).bind ?_
  exact ((undoes_putMap undoes_putColumn).reads rs.columns.columns hcolumns).last _

end Payload

end DecisionTable
