import HookedAutomata.Proofs.WrittenForms
import HookedAutomata.Proofs.WrittenJson
import HookedAutomata.Record.Load

/-!
# Saved texts are read back

What is written of a value as JSON is read as the value (`Document.ofText_toText`). It remains that
each format takes the reading of what it writes for what was written (`Format.KeepsInJson`). Scalars
do, and lists, optional values and records do if their parts do: an optional value only if its parts
are never written as null, and a record only if its keys are different.

Nothing is asked of the texts in a record, nor of its lists.

Main statement: `saved_texts_read`.
-/

namespace HookedAutomata

variable {α β σ : Type}

namespace Format

/-- What is written of any value is taken for the value. -/
def KeepsInJson (f : Format α) : Prop := ∀ a, f.ofReading (f.toJson a).reading = .ok a

theorem KeepsInJson.ofText_toText {f : Format α} (h : f.KeepsInJson) (a : α) :
    f.ofText (f.toText a) = .ok a := by
  rw [ofText, toText, Document.ofText_toText, Document.decode, h a]
  rfl

/-! ## Scalars -/

theorem keepsInJson_text : text.KeepsInJson := fun _ => rfl

theorem keepsInJson_flag : flag.KeepsInJson := fun _ => rfl

theorem keepsInJson_word32 : word32.KeepsInJson := by
  intro n
  have hn : n.toNat < UInt32.size := n.toNat_lt
  have hnatural := NumberScan.natural?_ofNat (Nat.lt_trans hn (by decide))
  show word32.ofReading (.number (NumberScan.ofNat n.toNat).numeral) = _
  generalize (NumberScan.ofNat n.toNat).numeral = numeral at hnatural
  obtain ⟨natural?, tooLarge⟩ := numeral
  obtain rfl : natural? = some n.toNat := hnatural
  exact (if_pos hn).trans (congrArg Except.ok UInt32.ofNat_toNat)

theorem keepsInJson_uuid : uuid.KeepsInJson := by
  intro u
  simp only [uuid, Json.reading, readText, bind, Except.bind, Uuid.ofText?_toText]
  rfl

theorem keepsInJson_moment : moment.KeepsInJson := by
  intro t
  simp only [moment, Json.reading, readText, bind, Except.bind, Instant.ofText?_toText]
  rfl

/-! ## Lists and optional values -/

theorem keepsInJson_optional {f : Format α} (h : f.KeepsInJson)
    (hnull : ∀ a, (f.toJson a).reading ≠ .null) : (optional f).KeepsInJson := by
  rintro (_ | a)
  · rfl
  · have hsome : (optional f).ofReading (f.toJson a).reading =
        (f.ofReading (f.toJson a).reading).map some := by
      simp only [optional]
      split
      · next heq => exact absurd heq (hnull a)
      · rfl
    exact hsome.trans (by rw [h a]; rfl)

theorem keepsInJson_list {f : Format α} (h : f.KeepsInJson) : (list f).KeepsInJson := by
  intro l
  have hitems : ((l.map f.toJson).map Json.reading).mapM f.ofReading = .ok l := by
    induction l with
    | nil => rfl
    | cons a l ih =>
      rw [List.map_cons, List.map_cons, List.mapM_cons, h a, ih]
      rfl
  show (list f).ofReading (.list (Json.itemReadings (l.map f.toJson)) none) = _
  rw [Json.itemReadings_eq_map]
  simp only [list, hitems]
  rfl

end Format

/-! ## Records -/

namespace Fields

def keys : {α σ : Type} → Fields α σ → List String
  | _, _, nil => []
  | _, _, cons key _ _ rest => key :: rest.keys

/-- The slots of all fields once their values have been read. -/
def filled : {α σ : Type} → Fields α σ → α → σ
  | _, _, nil, _ => ()
  | _, _, cons _ _ _ rest, (a, b) => (some a, rest.filled b)

theorem close_filled : {α σ : Type} → (f : Fields α σ) → (a : α) → f.close (f.filled a) = .ok a
  | _, _, nil, _ => rfl
  | _, _, cons _ _ _ rest, (a, b) => by
    rw [filled, close, close_filled rest b]
    rfl

theorem keys_toMembers : {α σ : Type} → (f : Fields α σ) → (a : α) →
    (f.toMembers a).map (·.1) = f.keys
  | _, _, nil, _ => rfl
  | _, _, cons _ _ _ rest, (a, b) => by rw [toMembers, List.map_cons, keys_toMembers rest b, keys]

/-- A member of another key leaves the slot of a field as it is. -/
theorem readMember_cons_of_ne {key : String} {format : Format α} {absent : Option α}
    {rest : Fields β σ} {slot : Option α} {slots : σ} {m : Option String × Reading}
    (h : m.1 ≠ some key) :
    (cons key format absent rest).readMember (slot, slots) m =
      (rest.readMember slots m).map fun slots => (slot, slots) := by
  obtain ⟨_ | k, v⟩ := m
  · rfl
  · have hk : k ≠ key := fun heq => h (congrArg some heq)
    simp only [readMember, fill?, if_neg hk]
    cases rest.fill? k v slots with
    | some r => rfl
    | none => cases v.skipFault <;> rfl

theorem foldlM_readMember_cons_of_ne {key : String} {format : Format α} {absent : Option α}
    {rest : Fields β σ} {slot : Option α} {members : List (Option String × Reading)}
    (h : ∀ m ∈ members, m.1 ≠ some key) (slots : σ) :
    members.foldlM (cons key format absent rest).readMember (slot, slots) =
      (members.foldlM rest.readMember slots).map fun slots => (slot, slots) := by
  induction members generalizing slots with
  | nil => rfl
  | cons m members ih =>
    rw [List.foldlM_cons, List.foldlM_cons, readMember_cons_of_ne (h m List.mem_cons_self)]
    cases rest.readMember slots m with
    | error e => rfl
    | ok slots => exact ih (fun m' hm => h m' (List.mem_cons_of_mem m hm)) slots

/-- The members that are written fill all slots. -/
def Fill (f : Fields α σ) : Prop :=
  ∀ a, (Json.memberReadings (f.toMembers a)).foldlM f.readMember f.unread = .ok (f.filled a)

theorem fill_nil : Fill nil := fun _ => rfl

theorem fill_cons {key : String} {format : Format α} {absent : Option α} {rest : Fields β σ}
    (h : format.KeepsInJson) (hkey : key ∉ rest.keys) (hrest : rest.Fill) :
    (cons key format absent rest).Fill := by
  rintro ⟨a, b⟩
  have hfirst : (cons key format absent rest).readMember (none, rest.unread)
      (some key, (format.toJson a).reading) = .ok (some a, rest.unread) := by
    simp only [readMember, fill?, if_pos, h a]
    rfl
  have hothers : ∀ m ∈ Json.memberReadings (rest.toMembers b), m.1 ≠ some key := by
    rw [Json.memberReadings_eq_map, List.forall_mem_map]
    intro m hm heq
    rw [← keys_toMembers rest b] at hkey
    exact hkey (Option.some.inj heq ▸ List.mem_map_of_mem hm)
  rw [toMembers, Json.memberReadings, unread, List.foldlM_cons, hfirst]
  exact (foldlM_readMember_cons_of_ne hothers _).trans (by rw [hrest b]; rfl)

end Fields

theorem Format.keepsInJson_record {ρ : Type} {fields : Fields α σ} {make : α → ρ} {values : ρ → α}
    (hmake : ∀ r, make (values r) = r) (h : fields.Fill) :
    (record fields make values).KeepsInJson := by
  intro r
  have hmembers : fields.readMembers (Json.memberReadings (fields.toMembers (values r))) none =
      .ok (values r) := by
    rw [Fields.readMembers, h]
    exact fields.close_filled (values r)
  show (fields.readMembers (Json.memberReadings (fields.toMembers (values r))) none).map make = _
  rw [hmembers]
  exact congrArg Except.ok (hmake r)

section Records

open Format Fields

theorem keepsInJson_hook : (optional text).KeepsInJson :=
  keepsInJson_optional keepsInJson_text nofun

theorem StateRecord.keepsInJson : format.KeepsInJson :=
  keepsInJson_record (fun _ => rfl) <| fill_cons keepsInJson_text (by decide) <|
    fill_cons keepsInJson_text (by decide) <| fill_cons keepsInJson_hook (by decide) <|
    fill_cons keepsInJson_hook (by decide) fill_nil

theorem TriggerRecord.keepsInJson : format.KeepsInJson :=
  keepsInJson_record (fun _ => rfl) <| fill_cons keepsInJson_text (by decide) <|
    fill_cons keepsInJson_text (by decide) fill_nil

theorem TransitionRecord.keepsInJson : format.KeepsInJson :=
  keepsInJson_record (fun _ => rfl) <| fill_cons keepsInJson_text (by decide) <|
    fill_cons TriggerRecord.keepsInJson (by decide) <|
    fill_cons (keepsInJson_list keepsInJson_text) (by decide) fill_nil

theorem AutomatonRecord.keepsInJson : format.KeepsInJson :=
  keepsInJson_record (fun _ => rfl) <|
    fill_cons (keepsInJson_list StateRecord.keepsInJson) (by decide) <|
    fill_cons (keepsInJson_list TransitionRecord.keepsInJson) (by decide) <|
    fill_cons keepsInJson_text (by decide) <| fill_cons StateRecord.keepsInJson (by decide) <|
    fill_cons (keepsInJson_list keepsInJson_text) (by decide) fill_nil

theorem Policy.keepsInJson : format.KeepsInJson :=
  keepsInJson_record (fun _ => rfl) <| fill_cons keepsInJson_flag (by decide) <|
    fill_cons keepsInJson_flag (by decide) <| fill_cons keepsInJson_flag (by decide) fill_nil

theorem RunRecord.keepsInJson : format.KeepsInJson :=
  keepsInJson_record (fun _ => rfl) <| fill_cons keepsInJson_word32 (by decide) <|
    fill_cons keepsInJson_uuid (by decide) <| fill_cons keepsInJson_moment (by decide) <|
    fill_cons AutomatonRecord.keepsInJson (by decide) <|
    fill_cons (keepsInJson_list keepsInJson_text) (by decide) <|
    fill_cons (keepsInJson_list (keepsInJson_list keepsInJson_text)) (by decide) <|
    fill_cons Policy.keepsInJson (by decide) fill_nil

end Records

/-! ## Saved automata and runs -/

variable {κ : Type} [CustomTrigger κ]

theorem Automaton.ofText_of_format {s : String} {r : AutomatonRecord}
    (h : AutomatonRecord.format.ofText s = .ok r) (g : Registries κ) (v : Wiring) :
    Automaton.ofText s g v = r.load g v := by
  rw [Automaton.ofText, h]
  rfl

theorem Run.ofText_of_format {s : String} {r : RunRecord}
    (h : RunRecord.format.ofText s = .ok r) (g : Registries κ) (v : Wiring) :
    Run.ofText s g v = r.load g v := by
  rw [Run.ofText, h]
  rfl

/-- **The text of a record is read as the record**, whatever its names and payloads hold. So an
automaton or a run that was saved as text is loaded as its record is. -/
theorem saved_texts_read (g : Registries κ) (v : Wiring) :
    (∀ r, AutomatonRecord.format.ofText (AutomatonRecord.format.toText r) = .ok r) ∧
    (∀ r, RunRecord.format.ofText (RunRecord.format.toText r) = .ok r) ∧
    (∀ (w : Wiring) (a : Automaton κ),
      Automaton.ofText (a.toText w) g v = (a.toRecord w).load g v) ∧
    ∀ (w : Wiring) (savedAt : Instant) (x : Run κ),
      Run.ofText (x.toText w savedAt) g v = (x.toRecord w savedAt).load g v := by
  have hautomaton := AutomatonRecord.keepsInJson.ofText_toText
  have hrun := RunRecord.keepsInJson.ofText_toText
  exact ⟨hautomaton, hrun, fun w a => Automaton.ofText_of_format (hautomaton _) g v,
    fun w savedAt x => Run.ofText_of_format (hrun _) g v⟩

end HookedAutomata
