import DecisionTable.Snapshot.Payload
import Mathlib.Data.List.Flatten
import Mathlib.Data.List.Nodup
import Mathlib.Data.List.Perm.Subperm

/-!
# Snapshot — Writing what was read

What a reader of a part of a snapshot reads can be written again in no more bytes than the reader
took, be they the ones that the writer would write or others: a number may have been read from more
bytes than it needs, and a map from entries with equal keys.

* `Decoder.Covers`: a reader takes at least the bytes that a writer needs for what was read.
* `Varint.length_encode_of_decode?`: the shortest form of a number is written.
* `SortedMap.subperm_ofList`: a map has no entries besides those that it was made of.
* `Payload.covers_encode`: what is read as a payload is written in no more bytes.
-/

namespace DecisionTable

/-! ### Numbers -/

theorem ofLittleEndian_lt (bs : List UInt8) : ofLittleEndian bs < 1 <<< (8 * bs.length) := by
  induction bs with
  | nil => exact Nat.one_pos
  | cons b bs ih =>
      have hb : b.toNat < 256 := b.toNat_lt
      rw [ofLittleEndian, List.length_cons, Nat.mul_succ, Nat.shiftLeft_add, Nat.shiftLeft_eq _ 8]
      omega

theorem length_of_takeBytes? {count : Nat} {bs taken rest : List UInt8}
    (h : takeBytes? count bs = some (taken, rest)) :
    taken.length = count ∧ taken.length + rest.length = bs.length := by
  rw [takeBytes?] at h
  split at h
  · next hle =>
    obtain ⟨rfl, rfl⟩ := Prod.mk.inj (Option.some.inj h)
    exact ⟨List.length_take_of_le hle, by rw [← List.length_append, List.take_append_drop]⟩
  · cases h

/-- A number of a fixed width is below the bound of the width, and is read from as many bytes. -/
theorem lt_of_fixed? {width n : Nat} {bs rest : List UInt8} (h : fixed? width bs = some (n, rest)) :
    n < 1 <<< (8 * width) ∧ width + rest.length = bs.length := by
  obtain ⟨⟨taken, rest'⟩, htaken, h⟩ := Option.map_eq_some_iff.mp h
  obtain ⟨rfl, rfl⟩ := Prod.mk.inj h
  obtain ⟨rfl, hlength⟩ := length_of_takeBytes? htaken
  exact ⟨ofLittleEndian_lt taken, hlength⟩

namespace Varint

theorem length_encode (n : Nat) :
    (encode n).length = if n < 251 then 1 else if n < 1 <<< 16 then 3
      else if n < 1 <<< 32 then 5 else 9 := by
  rw [encode]
  repeat' split
  all_goals simp

theorem length_encode_mono {m n : Nat} (h : m ≤ n) : (encode m).length ≤ (encode n).length := by
  rw [length_encode, length_encode]
  repeat' split
  all_goals omega

/-- A tag announces a width, and a number below its bound needs no more bytes. -/
theorem length_encode_of_width? {tag : UInt8} {width n : Nat} (hw : width? tag = some width)
    (h : n < 1 <<< (8 * width)) : (encode n).length ≤ width + 1 := by
  have hcases : width = 2 ∨ width = 4 ∨ width = 8 := by grind [width?]
  rw [length_encode]
  rcases hcases with rfl | rfl | rfl
  all_goals
    repeat' split
    all_goals omega

/-- **The shortest form** of a number is written: what was read is no shorter. -/
theorem length_encode_of_decode? {maxWidth n : Nat} {bs rest : List UInt8}
    (h : decode? maxWidth bs = some (n, rest)) :
    (encode n).length + rest.length ≤ bs.length := by
  cases bs with
  | nil => cases h
  | cons b bs =>
      rw [decode?] at h
      split at h
      · next hb =>
        obtain ⟨rfl, rfl⟩ := Prod.mk.inj (Option.some.inj h)
        have hlt : b.toNat < 251 := UInt8.lt_iff_toNat_lt.mp hb
        rw [length_encode, if_pos hlt, Nat.add_comm]
        exact Nat.le_refl _
      · obtain ⟨width, hw, h⟩ := Option.bind_eq_some_iff.mp h
        split at h
        · obtain ⟨hn, hlength⟩ := lt_of_fixed? h
          have hencode := length_encode_of_width? hw hn
          rw [List.length_cons]
          omega
        · cases h

end Varint

/-! ### Decoders one after the other -/

namespace Decoder

variable {α β : Type}

/-- Parts that are read one after the other. -/
theorem exists_of_bind {d : Decoder α} {next : α → Decoder β} {bs rest : List UInt8} {b : β}
    (h : (d >>= next) bs = some (b, rest)) :
    ∃ a between, d bs = some (a, between) ∧ next a between = some (b, rest) := by
  obtain ⟨⟨a, between⟩, ha, hb⟩ := Option.bind_eq_some_iff.mp h
  exact ⟨a, between, ha, hb⟩

/-- What the reader reads can be written in the bytes that it took. -/
def Covers (get : Decoder α) (put : α → List UInt8) : Prop :=
  ∀ {bs a rest}, get bs = some (a, rest) → (put a).length + rest.length ≤ bs.length

end Decoder

namespace SortedMap

variable {α : Type}

/-- **A map** has no entries besides those that it was made of, and each of them once. -/
theorem subperm_ofList (es : List (String × α)) : (ofList es).entries.Subperm es := by
  have hnodup : (ofList es).entries.Nodup := .of_map Prod.fst (nodup_names_entries _)
  exact List.subperm_of_subset hnodup fun _ => mem_of_mem_ofList

end SortedMap

namespace Payload

variable {α : Type}

/-! ### Numbers, texts and options -/

theorem covers_putNat : getNat.Covers putNat :=
  Varint.length_encode_of_decode?

theorem covers_putText : getText.Covers putText := by
  intro bs s rest h
  obtain ⟨length, bs₁, hlength, h⟩ := Decoder.exists_of_bind h
  obtain ⟨bytes, bs₂, hbytes, h⟩ := Decoder.exists_of_bind h
  obtain ⟨text, htext, h⟩ := Option.map_eq_some_iff.mp h
  obtain ⟨rfl, rfl⟩ := Prod.mk.inj h
  obtain rfl := Text.Utf8.eq_encode_of_decode? htext
  have hput := covers_putNat hlength
  obtain ⟨rfl, htaken⟩ := length_of_takeBytes? hbytes
  rw [putText, List.length_append]
  omega

theorem covers_putOption : getOption.Covers putOption := by
  intro bs o rest h
  rw [getOption.eq_def] at h
  split at h
  · obtain ⟨rfl, rfl⟩ := Prod.mk.inj (Option.some.inj h)
    exact Nat.le_of_eq (Nat.add_comm 1 _)
  · obtain ⟨⟨s, rest'⟩, hs, h⟩ := Option.map_eq_some_iff.mp h
    obtain ⟨rfl, rfl⟩ := Prod.mk.inj h
    have hput := covers_putText hs
    simp only [putOption, List.length_cons]
    omega
  · cases h

/-! ### Lists and maps -/

theorem covers_repeated {get : Decoder α} {put : α → List UInt8} (hc : get.Covers put) {n : Nat}
    {bs rest : List UInt8} {as : List α} (h : get.repeated n bs = some (as, rest)) :
    as.length = n ∧ (as.flatMap put).length + rest.length ≤ bs.length := by
  induction n generalizing bs as with
  | zero =>
      obtain ⟨rfl, rfl⟩ := Prod.mk.inj (Option.some.inj h)
      exact ⟨rfl, by simp⟩
  | succ n ih =>
      obtain ⟨a, bs₁, ha, h⟩ := Decoder.exists_of_bind h
      obtain ⟨as, bs₂, has, h⟩ := Decoder.exists_of_bind h
      obtain ⟨rfl, rfl⟩ := Prod.mk.inj (Option.some.inj h)
      obtain ⟨hlength, hrest⟩ := ih has
      have hfirst := hc ha
      refine ⟨by rw [List.length_cons, hlength], ?_⟩
      rw [List.flatMap_cons, List.length_append]
      omega

/-- **Lists.** -/
theorem covers_putList {get : Decoder α} {put : α → List UInt8} (hc : get.Covers put) :
    (getList get).Covers (putList put) := by
  intro bs as rest h
  obtain ⟨n, bs₁, hn, h⟩ := Decoder.exists_of_bind h
  obtain ⟨rfl, hitems⟩ := covers_repeated hc h
  have hcount := covers_putNat hn
  rw [putList, List.length_append]
  omega

/-- Fewer items are written in fewer bytes. -/
theorem length_putList_of_subperm (put : α → List UInt8) {as as' : List α} (h : as.Subperm as') :
    (putList put as).length ≤ (putList put as').length := by
  have hcount : (putNat as.length).length ≤ (putNat as'.length).length :=
    Varint.length_encode_mono h.length_le
  obtain ⟨kept, hperm, hsub⟩ := h
  have hitems : (as.flatMap put).length ≤ (as'.flatMap put).length := by
    rw [(hperm.symm.flatMap fun _ _ => .refl _).length_eq]
    exact (hsub.flatMap put).length_le
  rw [putList, putList, List.length_append, List.length_append]
  exact Nat.add_le_add hcount hitems

theorem covers_entry {get : Decoder α} {put : α → List UInt8} (hc : get.Covers put) :
    Decoder.Covers (do
      let key ← getText
      let value ← get
      return (key, value)) (fun e : String × α => putText e.1 ++ put e.2) := by
  intro bs e rest h
  obtain ⟨key, bs₁, hkey, h⟩ := Decoder.exists_of_bind h
  obtain ⟨value, bs₂, hvalue, h⟩ := Decoder.exists_of_bind h
  obtain ⟨rfl, rfl⟩ := Prod.mk.inj (Option.some.inj h)
  have hput := covers_putText hkey
  have hput' := hc hvalue
  simp only [List.length_append]
  omega

/-- **Maps.**  Entries with equal keys are read, and only the last of them is written. -/
theorem covers_putMap {get : Decoder α} {put : α → List UInt8} (hc : get.Covers put) :
    (getMap get).Covers (putMap put) := by
  intro bs m rest h
  obtain ⟨es, bs₁, hes, h⟩ := Decoder.exists_of_bind h
  obtain ⟨rfl, rfl⟩ := Prod.mk.inj (Option.some.inj h)
  have hlist := covers_putList (covers_entry hc) hes
  have hmap := length_putList_of_subperm (fun e => putText e.1 ++ put e.2)
    (SortedMap.subperm_ofList es)
  rw [putMap]
  omega

/-! ### Records -/

theorem covers_putCombinator : getCombinator.Covers putCombinator := by
  intro bs c rest h
  obtain ⟨n, bs₁, hn, h⟩ := Decoder.exists_of_bind h
  have hput := Varint.length_encode_of_decode? hn
  split at h
  · obtain ⟨rfl, rfl⟩ := Prod.mk.inj (Option.some.inj h)
    exact hput
  · obtain ⟨rfl, rfl⟩ := Prod.mk.inj (Option.some.inj h)
    exact hput
  · cases h

theorem covers_putMetadata : getMetadata.Covers putMetadata := by
  intro bs m rest h
  obtain ⟨id, bs₁, hid, h⟩ := Decoder.exists_of_bind h
  obtain ⟨className, bs₂, hclass, h⟩ := Decoder.exists_of_bind h
  obtain ⟨version, bs₃, hversion, h⟩ := Decoder.exists_of_bind h
  obtain ⟨combinator, bs₄, hcombinator, h⟩ := Decoder.exists_of_bind h
  obtain ⟨generalAction, bs₅, haction, h⟩ := Decoder.exists_of_bind h
  obtain ⟨extra, bs₆, hextra, h⟩ := Decoder.exists_of_bind h
  obtain ⟨rfl, rfl⟩ := Prod.mk.inj (Option.some.inj h)
  have hid := covers_putText hid
  have hclass := covers_putOption hclass
  have hversion := covers_putOption hversion
  have hcombinator := covers_putCombinator hcombinator
  have haction := covers_putOption haction
  have hextra := covers_putMap covers_putText hextra
  simp only [putMetadata, List.length_append]
  omega

theorem covers_putCell : getCell.Covers putCell := by
  intro bs c rest h
  obtain ⟨column, bs₁, hcolumn, h⟩ := Decoder.exists_of_bind h
  obtain ⟨text, bs₂, htext, h⟩ := Decoder.exists_of_bind h
  obtain ⟨rfl, rfl⟩ := Prod.mk.inj (Option.some.inj h)
  have hcolumn := covers_putText hcolumn
  have htext := covers_putText htext
  simp only [putCell, List.length_append]
  omega

theorem covers_putRule : getRule.Covers putRule := by
  intro bs r rest h
  obtain ⟨index, bs₁, hindex, h⟩ := Decoder.exists_of_bind h
  obtain ⟨conditions, bs₂, hconditions, h⟩ := Decoder.exists_of_bind h
  obtain ⟨actions, bs₃, hactions, h⟩ := Decoder.exists_of_bind h
  obtain ⟨rfl, rfl⟩ := Prod.mk.inj (Option.some.inj h)
  have hindex := covers_putText hindex
  have hconditions := covers_putList covers_putCell hconditions
  have hactions := covers_putList covers_putCell hactions
  simp only [putRule, List.length_append]
  omega

theorem covers_putColumn : getColumn.Covers putColumn := by
  intro bs d rest h
  obtain ⟨fieldName, bs₁, hfield, h⟩ := Decoder.exists_of_bind h
  obtain ⟨operator, bs₂, hoperator, h⟩ := Decoder.exists_of_bind h
  obtain ⟨rfl, rfl⟩ := Prod.mk.inj (Option.some.inj h)
  have hfield := covers_putOption hfield
  have hoperator := covers_putOption hoperator
  simp only [putColumn, List.length_append]
  omega

/-- **What is read as a payload** is written in no more bytes. -/
theorem covers_encode : decoder.Covers encode := by
  intro bs p rest h
  obtain ⟨ruleCount, bs₁, hrules, h⟩ := Decoder.exists_of_bind h
  obtain ⟨columnCount, bs₂, hcolumns, h⟩ := Decoder.exists_of_bind h
  obtain ⟨metadata, bs₃, hmetadata, h⟩ := Decoder.exists_of_bind h
  obtain ⟨rules, bs₄, hrows, h⟩ := Decoder.exists_of_bind h
  obtain ⟨columns, bs₅, hdefinitions, h⟩ := Decoder.exists_of_bind h
  obtain ⟨rfl, rfl⟩ := Prod.mk.inj (Option.some.inj h)
  have hrules := covers_putNat hrules
  have hcolumns := covers_putNat hcolumns
  have hmetadata := covers_putMetadata hmetadata
  have hrows := covers_putList covers_putRule hrows
  have hdefinitions := covers_putMap covers_putColumn hdefinitions
  simp only [encode, List.length_append]
  omega

end Payload

end DecisionTable
