import HookedAutomata.Proofs.Restoring
import HookedAutomata.Proofs.WrittenForms

/-!
# Saved bytes are read back, and never in part

A reader *takes* a value from bytes (`Takes`) if it leaves whatever follows the bytes and finds any
part of the bytes too short. Readers that take their values do so one after the other
(`Takes.andThen`): where the bytes of both are cut off, either the first reader finds its own too
short, or the second one does. So the law follows the way in which formats are put together.

Lengths stand in eight bytes. So a record must not have a text of `2 ^ 64` bytes or a list of so
many items (`RunRecord.Addressable`), which could not be addressed either.

Main statement: `RunRecord.bytes_taken`.
-/

namespace HookedAutomata

variable {α β : Type}

/-- A reader takes a value from bytes: it leaves what follows them, and a part of them is too
short. -/
structure Takes (read : ByteReader α) (bytes : List UInt8) (a : α) : Prop where
  whole : ∀ tail, read (bytes ++ tail) = .ok (a, tail)
  cut : ∀ l, l <+: bytes → l ≠ bytes → read l = .error .tooShort

namespace Takes

variable {read : ByteReader α} {bytes more : List UInt8} {a : α} {b : β}
  {next : α × List UInt8 → Except BinaryError (β × List UInt8)}

theorem pure (a : α) : Takes (fun l => Except.ok (a, l)) [] a where
  whole _ := rfl
  cut _ hpart hne := absurd (List.prefix_nil.1 hpart) hne

/-- What one reader takes and then another. -/
theorem andThen (h : Takes read bytes a) (h' : Takes (fun l => next (a, l)) more b) :
    Takes (fun l => read l >>= next) (bytes ++ more) b where
  whole tail := by
    rw [List.append_assoc, h.whole]
    exact h'.whole tail
  cut l hpart hne := by
    -- either the cut is in the first bytes, or all of them are there
    rcases List.prefix_or_prefix_of_prefix hpart (List.prefix_append bytes more) with hcut | hcut
    · by_cases heq : l = bytes
      · have hmore : [] ≠ more := by
          rintro rfl
          exact hne (by rw [heq, List.append_nil])
        have hwhole := h.whole []
        rw [List.append_nil] at hwhole
        rw [heq, hwhole]
        exact h'.cut [] List.nil_prefix hmore
      · rw [h.cut l hcut heq]
        rfl
    · obtain ⟨rest, rfl⟩ := hcut
      rw [h.whole]
      have hrest : rest <+: more := (List.prefix_append_right_inj bytes).1 hpart
      exact h'.cut rest hrest fun heq => hne (by rw [heq])

/-- What a reader takes, with something made of it. -/
theorem andReturn (h : Takes read bytes a) (hnext : ∀ l, next (a, l) = .ok (b, l)) :
    Takes (fun l => read l >>= next) bytes b := by
  have hpure : Takes (fun l => next (a, l)) [] b := by
    simp only [hnext]
    exact pure b
  simpa using h.andThen hpure

end Takes

/-! ## Bytes -/

namespace Bytes

theorem takes_take (bytes : List UInt8) : Takes (take bytes.length) bytes bytes := by
  induction bytes with
  | nil => exact Takes.pure []
  | cons b bytes ih =>
    refine ⟨fun tail => ?_, fun l hpart hne => ?_⟩
    · rw [List.cons_append, List.length_cons, take, ih.whole]
      rfl
    · rcases List.prefix_cons_iff.1 hpart with rfl | ⟨rest, rfl, hrest⟩
      · rfl
      · rw [List.length_cons, take, ih.cut rest hrest fun heq => hne (by rw [heq])]
        rfl

theorem length_littleEndian (width n : Nat) : (littleEndian width n).length = width := by
  induction width generalizing n with
  | zero => rfl
  | succ width ih => rw [littleEndian, List.length_cons, ih]

theorem ofLittleEndian_littleEndian {width n : Nat} (h : n < Nat.pow 256 width) :
    ofLittleEndian (littleEndian width n) = n := by
  induction width generalizing n with
  | zero => exact (Nat.lt_one_iff.1 h).symm
  | succ width ih =>
    have hdiv : n / 256 < Nat.pow 256 width := Nat.div_lt_of_lt_mul (by rwa [Nat.mul_comm])
    rw [littleEndian, ofLittleEndian, ih hdiv, UInt8.toNat_ofNat']
    exact Nat.mod_add_div n 256

theorem takes_nat {width n : Nat} (h : n < Nat.pow 256 width) :
    Takes (takeNat width) (littleEndian width n) n := by
  have hbytes := takes_take (littleEndian width n)
  rw [length_littleEndian] at hbytes
  exact hbytes.andReturn fun l =>
    congrArg (fun m => Except.ok (m, l)) (ofLittleEndian_littleEndian h)

theorem takes_length {n : Nat} (h : n < UInt64.size) : Takes takeLength (length n) n := takes_nat h

theorem takes_many {read : ByteReader α} {write : α → List UInt8} {l : List α}
    (h : ∀ a ∈ l, Takes read (write a) a) : Takes (takeMany read l.length) (l.flatMap write) l := by
  induction l with
  | nil => exact Takes.pure []
  | cons a l ih =>
    have hrest := ih fun b hb => h b (List.mem_cons_of_mem a hb)
    rw [List.flatMap_cons, List.length_cons]
    exact (h a List.mem_cons_self).andThen (hrest.andReturn fun _ => rfl)

end Bytes

/-! ## Formats -/

namespace Format

/-- The bytes of a value are taken for the value. -/
def KeepsInBytes (f : Format α) (a : α) : Prop := Takes f.ofBytes (f.toBytes a) a

variable {f : Format α}

theorem takes_text {s : String} (h : s.toUTF8.size < UInt64.size) :
    Takes takeText (textBytes s) s := by
  have hsize : s.toUTF8.size = s.toUTF8.data.toList.length := rfl
  have hutf8 : String.fromUTF8? s.toUTF8 = some s := dif_pos s.isValidUTF8
  have hbytes := Bytes.takes_take s.toUTF8.data.toList
  rw [← hsize] at hbytes
  refine (Bytes.takes_length h).andThen (hbytes.andReturn fun l => ?_)
  simp only [Array.toArray_toList, hutf8]
  rfl

theorem keepsInBytes_text {s : String} (h : s.toUTF8.size < UInt64.size) : text.KeepsInBytes s :=
  takes_text h

theorem keepsInBytes_word32 (n : UInt32) : word32.KeepsInBytes n :=
  (Bytes.takes_nat n.toNat_lt).andReturn fun l =>
    congrArg (fun m => Except.ok (m, l)) UInt32.ofNat_toNat

theorem takes_flag (e : BinaryError) (b : Bool) : Takes (takeFlag e) [if b then 1 else 0] b where
  whole tail := by cases b <;> rfl
  cut l hpart hne := by
    rcases List.prefix_cons_iff.1 hpart with rfl | ⟨rest, rfl, hrest⟩
    · rfl
    · exact absurd (by rw [List.prefix_nil.1 hrest]) hne

theorem keepsInBytes_flag (b : Bool) : flag.KeepsInBytes b := takes_flag .badFlag b

theorem keepsInBytes_uuid (u : Uuid) : uuid.KeepsInBytes u := by
  have hlength : u.bytes.length < UInt64.size := by
    rw [u.length_bytes]
    decide
  refine (Bytes.takes_length hlength).andThen ((Bytes.takes_take u.bytes).andReturn fun l => ?_)
  simp only [Uuid.ofBytes?, u.length_bytes, dif_pos]
  rfl

/-- A character is four bytes at most. -/
theorem size_toUTF8_le (s : String) : s.toUTF8.size ≤ 4 * s.toList.length := by
  have hencode (l : List Char) : l.utf8Encode.size ≤ 4 * l.length := by
    induction l with
    | nil => simp
    | cons c l ih =>
      have hc := c.utf8Size_le_four
      rw [List.utf8Encode_cons, List.utf8Encode_singleton, ByteArray.size_append,
        List.size_toByteArray, String.length_utf8EncodeChar, List.length_cons]
      omega
  have h := hencode s.toList
  rwa [← String.toByteArray_ofList, String.ofList_toList] at h

theorem keepsInBytes_moment (t : Instant) : moment.KeepsInBytes t := by
  have hsize : t.toText.toUTF8.size < UInt64.size := by
    have hle := size_toUTF8_le t.toText
    have hlength := t.length_toText_le
    exact Nat.lt_of_le_of_lt (show _ ≤ 132 by omega) (by decide)
  refine (takes_text hsize).andReturn fun l => ?_
  simp only [Instant.ofText?_toText]
  rfl

theorem keepsInBytes_optional {o : Option α} (h : ∀ a ∈ o, f.KeepsInBytes a) :
    (optional f).KeepsInBytes o := by
  cases o with
  | none => exact (takes_flag .badOption false).andReturn fun l => rfl
  | some a => exact (takes_flag .badOption true).andThen ((h a rfl).andReturn fun l => rfl)

theorem keepsInBytes_list {l : List α} (hlength : l.length < UInt64.size)
    (h : ∀ a ∈ l, f.KeepsInBytes a) : (list f).KeepsInBytes l :=
  (Bytes.takes_length hlength).andThen (Bytes.takes_many h)

end Format

namespace Fields

variable {σ : Type} {a : α} {b : β}

theorem takes_nil : Takes nil.ofBytes (nil.toBytes ()) () := Takes.pure ()

theorem takes_cons {key : String} {format : Format α} {absent : Option α} {rest : Fields β σ}
    (h : format.KeepsInBytes a) (hrest : Takes rest.ofBytes (rest.toBytes b) b) :
    Takes (cons key format absent rest).ofBytes ((cons key format absent rest).toBytes (a, b))
      (a, b) :=
  h.andThen (hrest.andReturn fun _ => rfl)

end Fields

theorem Format.keepsInBytes_record {σ ρ : Type} {fields : Fields α σ} {make : α → ρ}
    {values : ρ → α} {r : ρ} (hmake : make (values r) = r)
    (h : Takes fields.ofBytes (fields.toBytes (values r)) (values r)) :
    (record fields make values).KeepsInBytes r :=
  h.andReturn fun l => congrArg (fun r => Except.ok (r, l)) hmake

/-! ## Lengths -/

/-- Whether all of these lengths can be written in eight bytes. -/
def Fit (lengths : List Nat) : Prop := ∀ n ∈ lengths, n < UInt64.size

instance (lengths : List Nat) : Decidable (Fit lengths) := List.decidableBAll ..

theorem fit_append {l m : List Nat} : Fit (l ++ m) ↔ Fit l ∧ Fit m := List.forall_mem_append

/-- The length of a text, as a list of the only length that is written for it. -/
def textLengths (s : String) : List Nat := [s.toUTF8.size]

/-- The length of a list and those that are written for its items. -/
def listLengths (f : α → List Nat) (l : List α) : List Nat := l.length :: l.flatMap f

theorem fit_textLengths {s : String} : Fit (textLengths s) ↔ s.toUTF8.size < UInt64.size := by
  simp [Fit, textLengths]

theorem fit_listLengths {f : α → List Nat} {l : List α} :
    Fit (listLengths f l) ↔ l.length < UInt64.size ∧ ∀ a ∈ l, Fit (f a) := by
  simp only [Fit, listLengths, List.forall_mem_cons, List.mem_flatMap]
  exact and_congr_right fun _ =>
    ⟨fun h a ha n hn => h n ⟨a, ha, hn⟩, fun h n ⟨a, ha, hn⟩ => h a ha n hn⟩

theorem fit_optionLengths {f : α → List Nat} {o : Option α} :
    Fit (o.toList.flatMap f) ↔ ∀ a ∈ o, Fit (f a) := by
  cases o <;> simp [Fit]

/-! The lengths in the bytes of a record. An identifier and an instant are small. -/

def StateRecord.lengths (r : StateRecord) : List Nat :=
  textLengths r.name ++ (textLengths r.entry ++ (r.exit.toList.flatMap textLengths ++
    r.stay.toList.flatMap textLengths))

def TriggerRecord.lengths (r : TriggerRecord) : List Nat :=
  textLengths r.tag ++ textLengths r.payload

def TransitionRecord.lengths (r : TransitionRecord) : List Nat :=
  textLengths r.source ++ (r.trigger.lengths ++ listLengths textLengths r.targets)

def AutomatonRecord.lengths (r : AutomatonRecord) : List Nat :=
  listLengths StateRecord.lengths r.states ++
    (listLengths TransitionRecord.lengths r.transitions ++
      (textLengths r.start ++ (r.error.lengths ++ listLengths textLengths r.ends)))

def RunRecord.lengths (r : RunRecord) : List Nat :=
  r.automaton.lengths ++ (listLengths textLengths r.current ++
    listLengths (listLengths textLengths) r.history)

/-- Whether every text and every list of a record is short enough for its length to be written. What
can be addressed at all is. -/
def RunRecord.Addressable (r : RunRecord) : Prop := Fit r.lengths

instance (r : RunRecord) : Decidable r.Addressable := inferInstanceAs (Decidable (Fit _))

/-! ## Records -/

section Records

open Format Fields

/-- The names of a list. -/
theorem keepsInBytes_names {l : List String} (h : Fit (listLengths textLengths l)) :
    (list text).KeepsInBytes l :=
  keepsInBytes_list (fit_listLengths.1 h).1 fun s hs =>
    keepsInBytes_text (fit_textLengths.1 ((fit_listLengths.1 h).2 s hs))

theorem keepsInBytes_hook {o : Option String} (h : Fit (o.toList.flatMap textLengths)) :
    (optional text).KeepsInBytes o :=
  keepsInBytes_optional fun s hs =>
    keepsInBytes_text (fit_textLengths.1 (fit_optionLengths.1 h s hs))

theorem StateRecord.keepsInBytes {r : StateRecord} (h : Fit r.lengths) :
    format.KeepsInBytes r := by
  simp only [lengths, fit_append, fit_textLengths] at h
  obtain ⟨hname, hentry, hexit, hstay⟩ := h
  exact keepsInBytes_record rfl <| takes_cons (keepsInBytes_text hname) <|
    takes_cons (keepsInBytes_text hentry) <| takes_cons (keepsInBytes_hook hexit) <|
    takes_cons (keepsInBytes_hook hstay) takes_nil

theorem TriggerRecord.keepsInBytes {r : TriggerRecord} (h : Fit r.lengths) :
    format.KeepsInBytes r := by
  simp only [lengths, fit_append, fit_textLengths] at h
  exact keepsInBytes_record rfl <| takes_cons (keepsInBytes_text h.1) <|
    takes_cons (keepsInBytes_text h.2) takes_nil

theorem TransitionRecord.keepsInBytes {r : TransitionRecord} (h : Fit r.lengths) :
    format.KeepsInBytes r := by
  simp only [lengths, fit_append, fit_textLengths] at h
  obtain ⟨hsource, htrigger, htargets⟩ := h
  exact keepsInBytes_record rfl <| takes_cons (keepsInBytes_text hsource) <|
    takes_cons (TriggerRecord.keepsInBytes htrigger) <|
    takes_cons (keepsInBytes_names htargets) takes_nil

theorem AutomatonRecord.keepsInBytes {r : AutomatonRecord} (h : Fit r.lengths) :
    format.KeepsInBytes r := by
  simp only [lengths, fit_append, fit_textLengths, fit_listLengths] at h
  obtain ⟨hstates, htransitions, hstart, herror, hends⟩ := h
  exact keepsInBytes_record rfl <|
    takes_cons (keepsInBytes_list hstates.1 fun s hs =>
      StateRecord.keepsInBytes (hstates.2 s hs)) <|
    takes_cons (keepsInBytes_list htransitions.1 fun t ht =>
      TransitionRecord.keepsInBytes (htransitions.2 t ht)) <|
    takes_cons (keepsInBytes_text hstart) <| takes_cons (StateRecord.keepsInBytes herror) <|
    takes_cons (keepsInBytes_list hends.1 fun s hs => keepsInBytes_text (hends.2 s hs)) takes_nil

theorem Policy.keepsInBytes (p : Policy) : format.KeepsInBytes p :=
  keepsInBytes_record rfl <| takes_cons (keepsInBytes_flag _) <| takes_cons (keepsInBytes_flag _) <|
    takes_cons (keepsInBytes_flag _) takes_nil

theorem RunRecord.keepsInBytes {r : RunRecord} (h : r.Addressable) : format.KeepsInBytes r := by
  simp only [Addressable, lengths, fit_append] at h
  obtain ⟨hautomaton, hcurrent, hhistory⟩ := h
  have hsnapshots := fit_listLengths.1 hhistory
  exact keepsInBytes_record rfl <| takes_cons (keepsInBytes_word32 _) <|
    takes_cons (keepsInBytes_uuid _) <| takes_cons (keepsInBytes_moment _) <|
    takes_cons (AutomatonRecord.keepsInBytes hautomaton) <|
    takes_cons (keepsInBytes_names hcurrent) <|
    takes_cons (keepsInBytes_list hsnapshots.1 fun l hl =>
      keepsInBytes_names (hsnapshots.2 l hl)) <|
    takes_cons (Policy.keepsInBytes _) takes_nil

end Records

/-! ## Saved runs -/

variable {κ : Type} [CustomTrigger κ]

theorem Run.ofBytes_of_decode {l : List UInt8} {r : RunRecord}
    (h : RunRecord.format.decode l = .ok r) (g : Registries κ) (v : Wiring) :
    Run.ofBytes l g v = r.load g v := by
  rw [Run.ofBytes, h]
  rfl

/-- **A saved record is read back whole, and no part of it is ever read.** What follows the bytes of
a record does not matter, bytes that break off anywhere are too short, and so a saved run is loaded
as its record is, or not at all. -/
theorem RunRecord.bytes_taken (r : RunRecord) (h : r.Addressable) :
    (∀ tail, format.ofBytes (format.toBytes r ++ tail) = .ok (r, tail)) ∧
    (∀ tail, format.decode (format.toBytes r ++ tail) = .ok r) ∧
    (∀ l, l <+: format.toBytes r → l ≠ format.toBytes r → format.decode l = .error .tooShort) ∧
    ∀ (x : Run κ) (w : Wiring) (savedAt : Instant), x.toRecord w savedAt = r →
      ∀ (g : Registries κ) (v : Wiring),
        (∀ tail, Run.ofBytes (x.toBytes w savedAt ++ tail) g v = r.load g v) ∧
        ∀ l, l <+: x.toBytes w savedAt → l ≠ x.toBytes w savedAt →
          Run.ofBytes l g v = .error (.binary .tooShort) := by
  have htakes := keepsInBytes h
  have hdecode (tail : List UInt8) : format.decode (format.toBytes r ++ tail) = .ok r := by
    rw [Format.decode, htakes.whole]
    rfl
  have hcut (l : List UInt8) (hpart : l <+: format.toBytes r) (hne : l ≠ format.toBytes r) :
      format.decode l = .error .tooShort := by
    rw [Format.decode, htakes.cut l hpart hne]
    rfl
  refine ⟨htakes.whole, hdecode, hcut, fun x w savedAt hrecord g v => ⟨?_, ?_⟩⟩
  · intro tail
    rw [Run.toBytes, hrecord]
    exact Run.ofBytes_of_decode (hdecode tail) g v
  · rw [Run.toBytes, hrecord]
    intro l hpart hne
    rw [Run.ofBytes, hcut l hpart hne]
    rfl

/-- The turnstile while it is open, with one byte more and with one byte less. -/
theorem RunRecord.bytes_taken_turnstile :
    let x : Run Symbol := ⟨default, Run.turnstile, {}, .singleton ⟨"open", 1⟩, ∅⟩
    let r := x.toRecord .logging default
    r.Addressable ∧ format.decode (format.toBytes r ++ [7]) = .ok r ∧
      Run.ofBytes (x.toBytes .logging default ++ [7]) Registries.logging .logging =
        r.load Registries.logging .logging ∧
      Run.ofBytes (x.toBytes .logging default).dropLast Registries.logging .logging =
        .error (.binary .tooShort) := by
  intro x r
  have hrecords : Run.turnstile.table.toRecords = [⟨"locked", ⟨"text", "coin"⟩, ["open"]⟩] :=
    List.mergeSort_singleton _
  have haddressable : r.Addressable := by
    show Fit r.lengths
    simp only [r, x, Run.toRecord, Automaton.toRecord, hrecords]
    decide
  have hne : (format.toBytes r).dropLast ≠ format.toBytes r := by
    intro heq
    have hlength := congrArg List.length heq
    rw [List.length_dropLast] at hlength
    have hpos : 0 < (format.toBytes r).length := Nat.succ_pos _
    omega
  obtain ⟨-, hdecode, -, hrun⟩ := @RunRecord.bytes_taken Symbol _ r haddressable
  obtain ⟨hwhole, hcut⟩ := hrun x .logging default rfl Registries.logging .logging
  exact ⟨haddressable, hdecode [7], hwhole [7], hcut _ (List.dropLast_prefix _) hne⟩

end HookedAutomata
