import HookedAutomata.Json.Basic
import HookedAutomata.Json.Document

/-!
# Written JSON is read as the value that was written

Reading goes in two stages: a lexer turns characters into tokens, and an assembler puts tokens
together. So does the proof. A written value has its tokens (`Json.tokens`), whatever its depth and
whatever stands behind it, as long as that cannot be part of a number (`Lexer.tokens_render`). And
the tokens of a value are put together to the value as it is read (`Json.reading`,
`Assembler.foldl_tokens`).

Main statement: `Document.ofText_toText`.
-/

namespace HookedAutomata

/-! ## What is read of a value -/

/-- The reading of a number that is written with digits alone. -/
def NumberScan.ofNat (n : Nat) : NumberScan :=
  if n = 0 then { phase := .zero }
  else (Nat.toDigits 10 n).foldl takeWhole { phase := .whole }

namespace Json

mutual

/-- A value as it is read. -/
def reading : Json → Reading
  | null => .null
  | flag b => .flag b
  | number n => .number (NumberScan.ofNat n).numeral
  | text s => .text (some s)
  | list items => .list (itemReadings items) none
  | object members => .object (memberReadings members) none

def itemReadings : List Json → List Reading
  | [] => []
  | v :: vs => v.reading :: itemReadings vs

def memberReadings : List (String × Json) → List (Option String × Reading)
  | [] => []
  | (k, v) :: ms => (some k, v.reading) :: memberReadings ms

end

mutual

/-- The tokens of a value. -/
def tokens : Json → List Token
  | null => [.scalar .null]
  | flag b => [.scalar (.flag b)]
  | number n => [.scalar (.number (NumberScan.ofNat n).numeral)]
  | text s => [.text (some s)]
  | list [] => [.openList, .closeList]
  | list (v :: vs) => .openList :: (v.tokens ++ (itemTokens vs ++ [.closeList]))
  | object [] => [.openObject, .closeObject]
  | object ((k, v) :: ms) =>
    .openObject :: .text (some k) :: .colon :: (v.tokens ++ (memberTokens ms ++ [.closeObject]))

/-- The tokens of the items of a list that come after another item. -/
def itemTokens : List Json → List Token
  | [] => []
  | v :: vs => .comma :: (v.tokens ++ itemTokens vs)

/-- The tokens of the members of an object that come after another member. -/
def memberTokens : List (String × Json) → List Token
  | [] => []
  | (k, v) :: ms => .comma :: .text (some k) :: .colon :: (v.tokens ++ memberTokens ms)

end

theorem itemReadings_eq_map (items : List Json) : itemReadings items = items.map reading := by
  induction items with
  | nil => rfl
  | cons v vs ih => rw [itemReadings, ih, List.map_cons]

theorem memberReadings_eq_map (members : List (String × Json)) :
    memberReadings members = members.map fun m => (some m.1, m.2.reading) := by
  induction members with
  | nil => rfl
  | cons m ms ih => rw [memberReadings, ih, List.map_cons]

end Json

/-! ## Numbers that are kept -/

namespace NumberScan

theorem takeWhole_of_lt {d : Nat} {c : Char} (h : d * 10 + digitValue c < UInt64.size) :
    takeWhole { phase := .whole, digits := d } c =
      { phase := .whole, digits := d * 10 + digitValue c } := by
  have hdrops : drops { phase := .whole, digits := d } c = false := by
    simp only [drops, Bool.false_or, decide_eq_false_iff_not]
    omega
  rw [takeWhole, hdrops]
  rfl

theorem le_ofDigitChars (l : List Char) (d : Nat) : d ≤ Nat.ofDigitChars 10 l d := by
  induction l generalizing d with
  | nil => exact Nat.le_refl d
  | cons c l ih =>
    rw [Nat.ofDigitChars_cons]
    exact Nat.le_trans (by omega) (ih _)

theorem foldl_takeWhole {l : List Char} {d : Nat} (h : Nat.ofDigitChars 10 l d < UInt64.size) :
    l.foldl takeWhole { phase := .whole, digits := d } =
      { phase := .whole, digits := Nat.ofDigitChars 10 l d } := by
  induction l generalizing d with
  | nil => rfl
  | cons c l ih =>
    rw [Nat.ofDigitChars_cons, Nat.mul_comm] at h ⊢
    have hle := le_ofDigitChars l (d * 10 + digitValue c)
    rw [List.foldl_cons, takeWhole_of_lt (Nat.lt_of_le_of_lt hle h)]
    exact ih h

/-- A number of 64 bits is read as itself. -/
theorem natural?_ofNat {n : Nat} (h : n < UInt64.size) : (ofNat n).numeral.natural? = some n := by
  by_cases hn : n = 0
  · subst hn
    rfl
  · have hvalue : Nat.ofDigitChars 10 (Nat.toDigits 10 n) 0 = n := Nat.ofDigitChars_ten_toDigits
    have hofNat : ofNat n = { phase := .whole, digits := n } := by
      rw [ofNat, if_neg hn, foldl_takeWhole (by rwa [hvalue]), hvalue]
    rw [hofNat]
    rfl

end NumberScan

/-! ## Tokens -/

namespace Lexer

/-- All tokens of a text, from a point of its reading on. -/
def tokens : Lexer → List Char → List Token
  | x, [] => x.finish
  | x, c :: l => (x.step c).1 ++ tokens (x.step c).2 l

/-- The two stages of reading do not depend on each other. -/
theorem finish_foldl_step (r : Reader) (l : List Char) :
    (l.foldl Reader.step r).finish =
      ((r.lexer.tokens l).foldl Assembler.push r.assembler).finish := by
  induction l generalizing r with
  | nil => rfl
  | cons c l ih =>
    rw [List.foldl_cons, ih, tokens, List.foldl_append]
    rfl

/-- What may follow a value: nothing, or a character that is part of no number. -/
def Ends (rest : List Char) : Prop := ∀ c ∈ rest.head?, c = ',' ∨ c = '\n'

theorem ends_nil : Ends [] := nofun

theorem ends_comma (l : List Char) : Ends (',' :: l) := by
  rintro c ⟨⟩
  exact .inl rfl

theorem ends_newline (depth : Nat) (l : List Char) : Ends (Json.newline depth ++ l) := by
  rintro c ⟨⟩
  exact .inr rfl

theorem tokens_newline (depth : Nat) (l : List Char) :
    blank.tokens (Json.newline depth ++ l) = blank.tokens l := by
  have hblanks (n : Nat) : blank.tokens (List.replicate n ' ' ++ l) = blank.tokens l := by
    induction n with
    | zero => rfl
    | succ n ih => exact ih
  exact hblanks (2 * depth)

/-! ### Texts -/

section Texts

variable {t : TextScan} {c : Char} (rest : List Char)

theorem tokens_text_of_step {t' : TextScan} (h : t.step c = .more t') :
    (text t).tokens (c :: rest) = (text t').tokens rest := by
  simp only [tokens, step, h, List.nil_append]

theorem utf8Size_digit {n : Nat} (h : n < 16) : (Hex.digit n).utf8Size = 1 := by
  revert n
  decide

/-- A digit of an escape before the last one. -/
theorem tokens_unicode_more {value bytes n : Nat}
    (hphase : t.phase = .unicode none (some value) bytes) (hbytes : bytes < 3) (hn : n < 16) :
    (text t).tokens (Hex.digit n :: rest) =
      (text { t with phase := .unicode none (some (value * 16 + n)) (bytes + 1) }).tokens rest := by
  apply tokens_text_of_step
  rw [TextScan.step, hphase]
  simp only [TextScan.unicodeStep, Hex.value?_digit hn, utf8Size_digit hn]
  exact if_pos (by omega)

/-- The last digit of an escape that stands for a control character. -/
theorem tokens_unicode_last {value n : Nat} (hphase : t.phase = .unicode none (some value) 3)
    (hn : n < 16) (hvalue : value * 16 + n < 0x20) :
    (text t).tokens (Hex.digit n :: rest) =
      (text (t.push (Char.ofNat (value * 16 + n)))).tokens rest := by
  apply tokens_text_of_step
  have hhigh : TextScan.isHigh (value * 16 + n) = false := by simp [TextScan.isHigh]; omega
  have hlow : TextScan.isLow (value * 16 + n) = false := by simp [TextScan.isLow]; omega
  have hpush : t.pushUnit none (value * 16 + n) = t.push (Char.ofNat (value * 16 + n)) := by
    simp only [TextScan.pushUnit, hhigh, hlow, Bool.false_eq_true, if_false]
  rw [TextScan.step, hphase]
  simp only [TextScan.unicodeStep, Hex.value?_digit hn, utf8Size_digit hn]
  exact congrArg TextStep.more hpush

/-- A control character is written by its code unit in four digits. -/
theorem tokens_unicode (hphase : t.phase = .unicode none (some 0) 0) (hc : c.toNat < 0x20) :
    (text t).tokens (['0', '0'] ++ Hex.byte (UInt8.ofNat c.toNat) ++ rest) =
      (text (t.push c)).tokens rest := by
  have hbyte : Hex.byte (UInt8.ofNat c.toNat) =
      [Hex.digit (c.toNat / 16), Hex.digit (c.toNat % 16)] := by
    rw [Hex.byte, UInt8.toNat_ofNat_of_lt' (Nat.lt_trans hc (by decide))]
  have hc' : Char.ofNat (c.toNat / 16 * 16 + c.toNat % 16) = c := by
    rw [show c.toNat / 16 * 16 + c.toNat % 16 = c.toNat by omega, Char.ofNat_toNat]
  rw [hbyte]
  show (text t).tokens (Hex.digit 0 :: Hex.digit 0 :: Hex.digit (c.toNat / 16) ::
    Hex.digit (c.toNat % 16) :: rest) = _
  rw [tokens_unicode_more _ hphase (by omega) (by omega),
    tokens_unicode_more _ rfl (by omega) (by omega),
    tokens_unicode_more _ rfl (by omega) (by omega),
    tokens_unicode_last _ rfl (by omega) (by omega)]
  simp only [Nat.zero_mul, Nat.zero_add, hc']
  rfl

theorem tokens_escape (hphase : t.phase = .plain) (c : Char) :
    (text t).tokens (Json.escape c ++ rest) = (text (t.push c)).tokens rest := by
  have hstep (d : Char) : t.step d = t.plainStep d := by rw [TextScan.step, hphase]
  have hescape (l : List Char) :
      (text t).tokens ('\\' :: l) = (text { t with phase := .escape }).tokens l :=
    tokens_text_of_step l (hstep '\\')
  unfold Json.escape
  split
  -- a character that has no escape of its own; an escape of one letter is read by computation
  case h_8 hquote hbackslash _ _ _ _ _ =>
    split
    · next hc =>
      refine (hescape _).trans ((tokens_text_of_step _ rfl).trans ?_)
      exact tokens_unicode rest rfl hc
    · next hc =>
      apply tokens_text_of_step
      rw [hstep, TextScan.plainStep, if_neg hquote, if_neg hbackslash, if_neg hc]
  all_goals exact (hescape _).trans (tokens_text_of_step _ rfl)

theorem tokens_text (hphase : t.phase = .plain) (l : List Char) :
    (text t).tokens (l.flatMap Json.escape ++ rest) =
      (text { t with chars := l.reverse ++ t.chars }).tokens rest := by
  induction l generalizing t with
  | nil => rfl
  | cons c l ih =>
    rw [List.flatMap_cons, List.append_assoc, tokens_escape _ hphase, ih rfl, List.reverse_cons,
      List.append_assoc]
    obtain ⟨chars, unpaired, phase⟩ := t
    obtain rfl : phase = .plain := hphase
    rfl

theorem tokens_quote (s : String) :
    blank.tokens (Json.quote s ++ rest) = .text (some s) :: blank.tokens rest := by
  have hcontent : (some (String.ofList (s.toList.reverse ++ []).reverse)) = some s := by
    rw [List.append_nil, List.reverse_reverse, String.ofList_toList]
  show (text {}).tokens (s.toList.flatMap Json.escape ++ ['"'] ++ rest) = _
  rw [List.append_assoc, tokens_text _ rfl]
  exact congrArg (fun s => Token.text s :: blank.tokens rest) hcontent

theorem tokens_key (k : String) :
    blank.tokens (Json.quote k ++ ':' :: ' ' :: rest) =
      .text (some k) :: .colon :: blank.tokens rest :=
  tokens_quote _ k

end Texts

/-! ### Numbers -/

section Numbers

variable {n : NumberScan} {c : Char} {rest : List Char}

theorem phase_takeWhole (n : NumberScan) (c : Char) : (n.takeWhole c).phase = .whole := by
  rw [NumberScan.takeWhole]
  split <;> rfl

theorem phase_foldl_takeWhole (hphase : n.phase = .whole) {l : List Char} :
    (l.foldl NumberScan.takeWhole n).phase = .whole := by
  induction l generalizing n with
  | nil => exact hphase
  | cons c l ih => exact ih (phase_takeWhole n c)

theorem tokens_number_digits (hphase : n.phase = .whole) {l : List Char}
    (hl : ∀ c ∈ l, c.isDigit = true) :
    (number n).tokens (l ++ rest) = (number (l.foldl NumberScan.takeWhole n)).tokens rest := by
  induction l generalizing n with
  | nil => rfl
  | cons c l ih =>
    have hstep : n.step c = .more (n.takeWhole c) := by
      rw [NumberScan.step, hphase]
      exact if_pos (hl c List.mem_cons_self)
    rw [List.foldl_cons, ← ih (phase_takeWhole n c) fun d hd => hl d (List.mem_cons_of_mem c hd)]
    simp only [List.cons_append, tokens, step, hstep, List.nil_append]

/-- A number of digits alone is complete at what may follow it. -/
theorem tokens_number_ends (hphase : n.phase = .zero ∨ n.phase = .whole) (hrest : Ends rest) :
    (number n).tokens rest = .scalar (.number n.numeral) :: blank.tokens rest := by
  cases rest with
  | nil =>
    have hcomplete : n.isComplete = true := by
      rcases hphase with h | h <;> rw [NumberScan.isComplete, h]
    exact if_pos hcomplete
  | cons c rest =>
    have hover : n.step c = .over := by
      rcases hrest c rfl with rfl | rfl <;> rcases hphase with h | h <;>
        · rw [NumberScan.step, h]
          rfl
    simp only [tokens, step, hover, List.cons_append]

theorem blankStep_of_isDigit (hc : c.isDigit = true) (hzero : c ≠ '0') :
    blankStep c = ([], number { phase := .whole, digits := digitValue c }) := by
  have hfirst : NumberScan.first? c = some { phase := .whole, digits := digitValue c } := by
    rw [NumberScan.first?, if_neg (by rintro rfl; exact absurd hc (by decide)), if_neg hzero,
      if_pos hc]
  have hblank : isBlank c ≠ true := by
    intro h
    simp only [isBlank, Bool.or_eq_true, beq_iff_eq] at h
    rcases h with ((rfl | rfl) | rfl) | rfl <;> exact absurd hc (by decide)
  unfold blankStep
  rw [if_neg hblank]
  split
  case h_11 => rw [hfirst]
  all_goals exact absurd hc (by decide)

/-- The digits of a number other than zero do not begin with a zero. -/
theorem exists_toDigits_eq_cons {m : Nat} (h : m ≠ 0) :
    ∃ c l, Nat.toDigits 10 m = c :: l ∧ c ≠ '0' := by
  induction m using Nat.strongRecOn with
  | ind m ih =>
    rw [Nat.toDigits_eq_if (by decide)]
    split
    · next hlt =>
      have hchar : ∀ m < 10, m ≠ 0 → Nat.digitChar m ≠ '0' := by decide
      exact ⟨_, [], rfl, hchar m hlt h⟩
    · next hge =>
      obtain ⟨c, l, hl, hc⟩ := ih (m / 10) (by omega) (by omega)
      exact ⟨c, l ++ _, by rw [hl]; rfl, hc⟩

theorem digitValue_lt (hc : c.isDigit = true) : digitValue c < 10 := by
  simp only [Char.isDigit, Bool.and_eq_true, decide_eq_true_eq] at hc
  have hhigh : c.toNat ≤ 0x39 := hc.2
  exact show c.toNat - 0x30 < 10 by omega

theorem tokens_toDigits (m : Nat) (hrest : Ends rest) :
    blank.tokens (Nat.toDigits 10 m ++ rest) =
      .scalar (.number (NumberScan.ofNat m).numeral) :: blank.tokens rest := by
  by_cases hm : m = 0
  · subst hm
    exact tokens_number_ends (n := { phase := .zero }) (.inl rfl) hrest
  · obtain ⟨c, l, hl, hc⟩ := exists_toDigits_eq_cons hm
    have hdigits : ∀ d ∈ c :: l, d.isDigit = true := fun d hd =>
      Nat.isDigit_of_mem_toDigits (by decide) (by decide) (hl ▸ hd)
    have hfirst : 0 * 10 + digitValue c < UInt64.size := by
      have hlt := digitValue_lt (hdigits c List.mem_cons_self)
      exact Nat.lt_trans (show 0 * 10 + digitValue c < 10 by omega) (by decide)
    have hofNat : NumberScan.ofNat m =
        l.foldl NumberScan.takeWhole { phase := .whole, digits := digitValue c } := by
      rw [NumberScan.ofNat, if_neg hm, hl, List.foldl_cons, NumberScan.takeWhole_of_lt hfirst,
        Nat.zero_mul, Nat.zero_add]
    have hphase : (NumberScan.ofNat m).phase = .whole := by
      rw [hofNat, phase_foldl_takeWhole rfl]
    rw [hl, List.cons_append, tokens, step,
      blankStep_of_isDigit (hdigits c List.mem_cons_self) hc, List.nil_append,
      tokens_number_digits rfl fun d hd => hdigits d (List.mem_cons_of_mem c hd), ← hofNat,
      tokens_number_ends (.inr hphase) hrest]

end Numbers

/-! ### Values -/

theorem ends_renderItems (depth : Nat) (vs : List Json) {rest : List Char} (h : Ends rest) :
    Ends (Json.renderItems depth vs ++ rest) := by
  cases vs with
  | nil => exact h
  | cons v vs => exact ends_comma _

theorem ends_renderMembers (depth : Nat) (ms : List (String × Json)) {rest : List Char}
    (h : Ends rest) : Ends (Json.renderMembers depth ms ++ rest) := by
  cases ms with
  | nil => exact h
  | cons m ms => exact ends_comma _

/- By the recursion of `Json.render`. What stands behind a value is carried along, since a number
is complete only there. -/
mutual

theorem tokens_render : (v : Json) → (depth : Nat) → {rest : List Char} → Ends rest →
    blank.tokens (v.render depth ++ rest) = v.tokens ++ blank.tokens rest
  | .null, _, _, _ => rfl
  | .flag true, _, _, _ => rfl
  | .flag false, _, _, _ => rfl
  | .number n, _, _, hrest => tokens_toDigits n hrest
  | .text s, _, rest, _ => tokens_quote rest s
  | .list [], _, _, _ => rfl
  | .list (v :: vs), depth, rest, _ => by
    have hnewline := ends_newline depth (']' :: rest)
    simp only [Json.render, Json.tokens, List.cons_append, List.append_assoc, List.nil_append]
    show Token.openList :: blank.tokens _ = _
    rw [tokens_newline, tokens_render v _ (ends_renderItems _ vs hnewline),
      tokens_renderItems vs _ hnewline, tokens_newline]
    rfl
  | .object [], _, _, _ => rfl
  | .object ((k, v) :: ms), depth, rest, _ => by
    have hnewline := ends_newline depth ('\x7d' :: rest)
    simp only [Json.render, Json.tokens, List.cons_append, List.append_assoc, List.nil_append]
    show Token.openObject :: blank.tokens _ = _
    rw [tokens_newline, tokens_key, tokens_render v _ (ends_renderMembers _ ms hnewline),
      tokens_renderMembers ms _ hnewline, tokens_newline]
    rfl

theorem tokens_renderItems : (vs : List Json) → (depth : Nat) → {rest : List Char} → Ends rest →
    blank.tokens (Json.renderItems depth vs ++ rest) = Json.itemTokens vs ++ blank.tokens rest
  | [], _, _, _ => rfl
  | v :: vs, depth, rest, hrest => by
    simp only [Json.renderItems, Json.itemTokens, List.cons_append, List.append_assoc]
    show Token.comma :: blank.tokens _ = _
    rw [tokens_newline, tokens_render v _ (ends_renderItems _ vs hrest),
      tokens_renderItems vs _ hrest]

theorem tokens_renderMembers : (ms : List (String × Json)) → (depth : Nat) →
    {rest : List Char} → Ends rest →
    blank.tokens (Json.renderMembers depth ms ++ rest) = Json.memberTokens ms ++ blank.tokens rest
  | [], _, _, _ => rfl
  | (k, v) :: ms, depth, rest, hrest => by
    simp only [Json.renderMembers, Json.memberTokens, List.cons_append, List.append_assoc]
    show Token.comma :: blank.tokens _ = _
    rw [tokens_newline, tokens_key, tokens_render v _ (ends_renderMembers _ ms hrest),
      tokens_renderMembers ms _ hrest]

end

end Lexer

/-! ## Values put together -/

namespace Assembler

/-- No value begins with the end of a list. So the first item of a list is read as any other. -/
theorem foldl_tokens_firstItem (v : Json) (stack : List Frame) :
    v.tokens.foldl push (.firstItem stack) = v.tokens.foldl push (.value (.list [] :: stack)) := by
  match v with
  | .null | .flag _ | .number _ | .text _ | .list [] | .list (_ :: _) | .object []
  | .object (_ :: _) => rfl

/- The stack stays as it is while a value is put together, so values nest to any depth. -/
mutual

theorem foldl_tokens : (v : Json) → (stack : List Frame) →
    v.tokens.foldl push (.value stack) = finishValue v.reading stack
  | .null, _ => rfl
  | .flag _, _ => rfl
  | .number _, _ => rfl
  | .text _, _ => rfl
  | .list [], _ => rfl
  | .list (v :: vs), stack => by
    simp only [Json.tokens, List.foldl_cons, List.foldl_append, List.foldl_nil]
    rw [show push (.value stack) .openList = .firstItem stack from rfl, foldl_tokens_firstItem,
      foldl_tokens v, finishValue, foldl_itemTokens vs]
    simp only [push, Json.reading, Json.itemReadings, List.reverse_append, List.reverse_reverse,
      List.reverse_cons, List.reverse_nil, List.nil_append, List.cons_append]
  | .object [], _ => rfl
  | .object ((k, v) :: ms), stack => by
    simp only [Json.tokens, List.foldl_cons, List.foldl_append, List.foldl_nil]
    rw [show push (push (push (.value stack) .openObject) (.text (some k))) .colon =
      .value (.object [] (some k) :: stack) from rfl, foldl_tokens v, finishValue,
      foldl_memberTokens ms]
    simp only [push, Json.reading, Json.memberReadings, List.reverse_append, List.reverse_reverse,
      List.reverse_cons, List.reverse_nil, List.nil_append, List.cons_append]

theorem foldl_itemTokens : (vs : List Json) → (items : List Reading) → (stack : List Frame) →
    (Json.itemTokens vs).foldl push (.afterItem items stack) =
      .afterItem ((Json.itemReadings vs).reverse ++ items) stack
  | [], _, _ => rfl
  | v :: vs, items, stack => by
    simp only [Json.itemTokens, List.foldl_cons, List.foldl_append]
    rw [show push (.afterItem items stack) .comma = .value (.list items :: stack) from rfl,
      foldl_tokens v, finishValue, foldl_itemTokens vs, Json.itemReadings, List.reverse_cons,
      List.append_assoc]
    rfl

theorem foldl_memberTokens : (ms : List (String × Json)) →
    (members : List (Option String × Reading)) → (stack : List Frame) →
    (Json.memberTokens ms).foldl push (.afterMember members stack) =
      .afterMember ((Json.memberReadings ms).reverse ++ members) stack
  | [], _, _ => rfl
  | (k, v) :: ms, members, stack => by
    simp only [Json.memberTokens, List.foldl_cons, List.foldl_append]
    rw [show push (push (push (.afterMember members stack) .comma) (.text (some k))) .colon =
      .value (.object members (some k) :: stack) from rfl, foldl_tokens v, finishValue,
      foldl_memberTokens ms, Json.memberReadings, List.reverse_cons, List.append_assoc]
    rfl

end

end Assembler

/-- What is written of a value is read as the value, with nothing behind it. -/
theorem Document.ofText_toText (v : Json) : ofText v.toText = ⟨v.reading, none⟩ := by
  have htokens : Lexer.blank.tokens (v.render 0) = v.tokens := by
    simpa [Lexer.tokens, Lexer.finish] using Lexer.tokens_render v 0 Lexer.ends_nil
  rw [ofText, Json.toText, String.toList_ofList, Lexer.finish_foldl_step]
  show ((Lexer.blank.tokens (v.render 0)).foldl Assembler.push (.value [])).finish = _
  rw [htokens, Assembler.foldl_tokens]
  rfl

end HookedAutomata
