import NamedContent.Name.Component

/-! # What an escaped text spells

In the text of a segment each character stands for its UTF-8 bytes, but a percent sign and the two
characters behind it write one byte. Which two characters write which byte is a rule: writing keeps
to upper-case digits, reading takes digits of either case, and a plus sign for a leading zero. A
text spells at most one byte string, and one just when the rule holds behind every percent sign.

* `Bytes.IsHexDigit`, `Component.UpperPair`, `Component.HexPair`, `Component.SignedPair`: the rules
* `Component.Spells`, `Component.EachEscaped`: the bytes of a text, and the rule at every percent
  sign, with `Component.exists_spells_iff`
* `Component.StandsFor`: the component of a segment, with `Component.ofEscaped?_eq_some_iff` for
  reading and `Component.standsFor_escapedChars` for writing -/

namespace NamedContent

namespace Bytes

/-! ## Hexadecimal digits -/

/-- Whether a character is the hexadecimal digit of a number, in either case. -/
def IsHexDigit (c : Char) (n : Nat) : Prop :=
  n < 16 ∧ (c = n.digitChar ∨ c = n.digitChar.toUpper)

instance (c : Char) (n : Nat) : Decidable (IsHexDigit c n) :=
  inferInstanceAs (Decidable (n < 16 ∧ (c = n.digitChar ∨ c = n.digitChar.toUpper)))

/-- A character that is read as a digit is an ASCII character. -/
theorem toNat_lt_of_hexValue? {c : Char} {n : Nat} (h : hexValue? c = some n) : c.toNat < 128 := by
  have hupper : ∀ {d : Char}, c ≤ d → d.toNat < 128 → c.toNat < 128 := fun hle hd =>
    Nat.lt_of_le_of_lt (UInt32.le_iff_toNat_le.1 hle) hd
  rw [hexValue?] at h
  split at h
  · next hc => exact hupper hc.2 (by decide)
  split at h
  · next hc => exact hupper hc.2 (by decide)
  split at h
  · next hc => exact hupper hc.2 (by decide)
  · exact nomatch h

/-- A character is read as the number whose digit it is. -/
theorem hexValue?_eq_some_iff {c : Char} {n : Nat} : hexValue? c = some n ↔ IsHexDigit c n := by
  constructor
  · intro h
    -- only ASCII characters are read as digits, so that it is enough to go through those
    have hall : ∀ k < 128, ∀ n ∈ hexValue? (Char.ofNat k), IsHexDigit (Char.ofNat k) n := by
      decide +kernel
    have hdigit := hall c.toNat (toNat_lt_of_hexValue? h) n
    rw [Char.ofNat_toNat] at hdigit
    exact hdigit h
  · have hall : ∀ n < 16, hexValue? n.digitChar = some n
        ∧ hexValue? n.digitChar.toUpper = some n := by decide
    rintro ⟨hn, rfl | rfl⟩
    · exact (hall n hn).1
    · exact (hall n hn).2

/-- Neither a plus sign nor a percent sign is a digit. -/
theorem IsHexDigit.ne_sign {c : Char} {n : Nat} (h : IsHexDigit c n) : c ≠ '+' ∧ c ≠ '%' := by
  rw [← hexValue?_eq_some_iff] at h
  constructor <;> rintro rfl <;> exact nomatch h

end Bytes

namespace Component

open Bytes (IsHexDigit hexValue?)

/-! ## Rules for escapes -/

/-- Which two characters behind a percent sign write which byte. -/
abbrev EscapeRule := Char → Char → UInt8 → Prop

/-- The two upper-case digits of a byte. -/
def UpperPair : EscapeRule := fun high low b =>
  high = (b.toNat / 16).digitChar.toUpper ∧ low = (b.toNat % 16).digitChar.toUpper

/-- The two digits of a byte, each in either case. -/
def HexPair : EscapeRule := fun high low b =>
  IsHexDigit high (b.toNat / 16) ∧ IsHexDigit low (b.toNat % 16)

/-- The two digits of a byte, or a plus sign and its only digit. -/
def SignedPair : EscapeRule := fun high low b =>
  HexPair high low b ∨ high = '+' ∧ IsHexDigit low b.toNat

variable {high low : Char} {b : UInt8}

/-- A pair of digits in capitals is one of hexadecimal digits. -/
theorem UpperPair.hexPair (h : UpperPair high low b) : HexPair high low b := by
  have hb := b.toNat_lt
  exact ⟨⟨by omega, .inr h.1⟩, ⟨by omega, .inr h.2⟩⟩

/-- A pair of hexadecimal digits may be read with a sign. -/
theorem HexPair.signedPair (h : HexPair high low b) : SignedPair high low b := .inl h

/-- No rule for escapes has a percent sign. -/
theorem SignedPair.ne_percent (h : SignedPair high low b) : high ≠ '%' ∧ low ≠ '%' := by
  rcases h with ⟨hhigh, hlow⟩ | ⟨rfl, hlow⟩
  · exact ⟨hhigh.ne_sign.2, hlow.ne_sign.2⟩
  · exact ⟨by decide, hlow.ne_sign.2⟩

/-- Two digits write the byte that is their number. -/
theorem hexPair_iff :
    HexPair high low b
      ↔ ∃ h l, IsHexDigit high h ∧ IsHexDigit low l ∧ b = UInt8.ofNat (16 * h + l) := by
  constructor
  · intro h
    refine ⟨_, _, h.1, h.2, ?_⟩
    rw [Nat.div_add_mod, UInt8.ofNat_toNat]
  · rintro ⟨h, l, hhigh, hlow, rfl⟩
    have hh := hhigh.1
    have hl := hlow.1
    have hvalue : (UInt8.ofNat (16 * h + l)).toNat = 16 * h + l := by
      rw [UInt8.toNat_ofNat']
      omega
    have hdiv : (16 * h + l) / 16 = h := by omega
    have hmod : (16 * h + l) % 16 = l := by omega
    rw [HexPair, hvalue, hdiv, hmod]
    exact ⟨hhigh, hlow⟩

/-- **An escape is read as two digits, or as a plus sign and one.** -/
theorem hexPair?_eq_some_iff : hexPair? high low = some b ↔ SignedPair high low b := by
  by_cases hplus : high = '+'
  · subst hplus
    have hread : hexPair? '+' low = (hexValue? low).map UInt8.ofNat := by
      rw [hexPair?]
      cases hexValue? low with
      | none => rfl
      | some l => simp
    -- a plus sign is no digit, so that only the second way is left
    have hno : ¬ HexPair '+' low b := fun h => h.1.ne_sign.1 rfl
    rw [hread, Option.map_eq_some_iff, SignedPair, or_iff_right hno, and_iff_right rfl]
    constructor
    · rintro ⟨l, hl, rfl⟩
      have hdigit := Bytes.hexValue?_eq_some_iff.1 hl
      rwa [UInt8.toNat_ofNat', Nat.mod_eq_of_lt (Nat.lt_trans hdigit.1 (by decide))]
    · exact fun h => ⟨b.toNat, Bytes.hexValue?_eq_some_iff.2 h, UInt8.ofNat_toNat⟩
  · have hread : hexPair? high low = some b
        ↔ ∃ h, hexValue? high = some h ∧ ∃ l, hexValue? low = some l
          ∧ UInt8.ofNat (16 * h + l) = b := by
      simp [hexPair?, hplus, Option.bind_eq_some_iff]
    rw [hread, SignedPair, or_iff_left fun h => hplus h.1, hexPair_iff]
    simp only [Bytes.hexValue?_eq_some_iff, exists_and_left, eq_comm (b := b)]

/-! ## Spelling -/

/-- The byte strings that a text spells under a rule for escapes. -/
inductive Spells (rule : EscapeRule) : List Char → Bytes → Prop
  /-- No text spells no bytes. -/
  | nil : Spells rule [] []
  /-- Any character but a percent sign spells its UTF-8 bytes. -/
  | plain {c : Char} {text : List Char} {bytes : Bytes} (hc : c ≠ '%')
      (rest : Spells rule text bytes) : Spells rule (c :: text) (String.utf8EncodeChar c ++ bytes)
  /-- A percent sign and the two characters behind it spell one byte. -/
  | escape {high low : Char} {b : UInt8} {text : List Char} {bytes : Bytes}
      (pair : rule high low b) (rest : Spells rule text bytes) :
      Spells rule ('%' :: high :: low :: text) (b :: bytes)

/-- Whether the two characters behind each percent sign of a text are an escape. -/
def EachEscaped (rule : EscapeRule) (text : List Char) : Prop :=
  ∀ front rest, text = front ++ '%' :: rest →
    ∃ high low b more, rest = high :: low :: more ∧ rule high low b

variable {rule stronger : EscapeRule} {text more : List Char} {bytes others : Bytes}

/-- What a text spells under a rule it spells under each weaker one. -/
theorem Spells.mono (hrule : ∀ {high low b}, stronger high low b → rule high low b)
    (h : Spells stronger text bytes) : Spells rule text bytes := by
  induction h with
  | nil => exact .nil
  | plain hc _ ih => exact .plain hc ih
  | escape pair _ ih => exact .escape (hrule pair) ih

/-- Texts one after the other spell their bytes one after the other. -/
theorem Spells.append (h : Spells rule text bytes) (hmore : Spells rule more others) :
    Spells rule (text ++ more) (bytes ++ others) := by
  induction h with
  | nil => exact hmore
  | plain hc _ ih =>
    rw [List.append_assoc]
    exact .plain hc ih
  | escape pair _ ih => exact .escape pair ih

/-- Only the empty text spells no bytes, and it spells no others. -/
theorem Spells.eq_nil_iff (h : Spells rule text bytes) : bytes = [] ↔ text = [] := by
  cases h with
  | nil => exact iff_of_true rfl rfl
  | @plain c text bytes hc rest =>
    refine iff_of_false (fun hnil => ?_) (List.cons_ne_nil _ _)
    have hlength := congrArg List.length (List.append_eq_nil_iff.1 hnil).1
    rw [String.length_utf8EncodeChar] at hlength
    exact absurd hlength (Nat.pos_iff_ne_zero.1 c.utf8Size_pos)
  | escape pair rest => exact iff_of_false (List.cons_ne_nil _ _) (List.cons_ne_nil _ _)

/-- **Reading takes the texts that spell something** with a plus sign allowed, and finds it. -/
theorem unescape?_eq_some_iff : unescape? text = some bytes ↔ Spells SignedPair text bytes := by
  constructor
  · intro h
    fun_induction unescape? text generalizing bytes with
    | case1 =>
      cases h
      exact .nil
    | case2 high low rest ih =>
      obtain ⟨b, hb, h⟩ := Option.bind_eq_some_iff.1 h
      obtain ⟨tail, htail, h⟩ := Option.bind_eq_some_iff.1 h
      cases h
      exact .escape (hexPair?_eq_some_iff.1 hb) (ih htail)
    | case3 rest hshort => exact nomatch h
    | case4 c rest hpattern hc ih =>
      obtain ⟨tail, htail, rfl⟩ := Option.map_eq_some_iff.1 h
      exact .plain hc (ih htail)
  · intro h
    induction h with
    | nil => rfl
    | @plain c text bytes hc _ ih =>
      rw [unescape?, if_neg hc, ih]
      · rfl
      · exact fun _ _ _ h => absurd h hc
    | @escape high low b text bytes pair _ ih =>
      rw [unescape?, hexPair?_eq_some_iff.2 pair, ih]
      rfl

/-- A text spells at most one byte string. -/
theorem Spells.unique (hrule : ∀ {high low b}, rule high low b → SignedPair high low b)
    (h : Spells rule text bytes) (h' : Spells rule text others) : bytes = others := by
  have hread := unescape?_eq_some_iff.2 (h.mono hrule)
  rw [unescape?_eq_some_iff.2 (h'.mono hrule)] at hread
  exact (Option.some.inj hread).symm

/-- Where the rule holds behind each percent sign, it does so without the first character. -/
theorem EachEscaped.tail {c : Char} (h : EachEscaped rule (c :: text)) : EachEscaped rule text :=
  fun front rest heq => h (c :: front) rest (by rw [heq]; rfl)

/-- A text in which each percent sign has its escape spells something. -/
theorem EachEscaped.exists_spells (h : EachEscaped rule text) :
    ∃ bytes, Spells rule text bytes := by
  -- the cases are those of reading; a percent sign with too little behind it has no escape
  induction text using unescape?.induct with
  | case1 => exact ⟨[], .nil⟩
  | case2 high low rest ih =>
    obtain ⟨_, _, b, _, heq, hpair⟩ := h [] (high :: low :: rest) rfl
    cases heq
    obtain ⟨bytes, hbytes⟩ := ih h.tail.tail.tail
    exact ⟨_, .escape hpair hbytes⟩
  | case3 rest hshort =>
    obtain ⟨high, low, _, more, heq, -⟩ := h [] rest rfl
    exact (hshort high low more rfl heq).elim
  | case4 c rest _ hc ih =>
    obtain ⟨bytes, hbytes⟩ := ih h.tail
    exact ⟨_, .plain hc hbytes⟩

/-- In a text that spells something each percent sign has its escape. -/
theorem Spells.eachEscaped (hrule : ∀ {high low b}, rule high low b → SignedPair high low b)
    (h : Spells rule text bytes) : EachEscaped rule text := by
  induction h with
  | nil => exact fun front rest heq => by simp at heq
  | plain hc _ ih =>
    intro front rest heq
    rcases List.cons_eq_append_iff.1 heq with ⟨-, hsame⟩ | ⟨front, -, heq⟩
    · exact absurd (List.cons.inj hsame).1.symm hc
    · exact ih front rest heq
  | @escape high low b text bytes pair _ ih =>
    intro front rest heq
    obtain ⟨hhigh, hlow⟩ := (hrule pair).ne_percent
    -- the percent sign is the first one, or stands behind the two characters of its escape
    rcases List.cons_eq_append_iff.1 heq with ⟨-, hsame⟩ | ⟨front, -, heq⟩
    · exact ⟨high, low, b, text, (List.cons.inj hsame).2, pair⟩
    rcases List.cons_eq_append_iff.1 heq with ⟨-, hsame⟩ | ⟨front, -, heq⟩
    · exact absurd (List.cons.inj hsame).1.symm hhigh
    rcases List.cons_eq_append_iff.1 heq with ⟨-, hsame⟩ | ⟨front, -, heq⟩
    · exact absurd (List.cons.inj hsame).1.symm hlow
    · exact ih front rest heq

/-- **A text spells something just when each percent sign has its escape.** -/
theorem exists_spells_iff (hrule : ∀ {high low b}, rule high low b → SignedPair high low b) :
    (∃ bytes, Spells rule text bytes) ↔ EachEscaped rule text :=
  ⟨fun ⟨_, h⟩ => h.eachEscaped hrule, EachEscaped.exists_spells⟩

/-- Without a plus sign behind a percent sign a text spells by digits alone. -/
theorem Spells.hexPair_of_not_infix (h : Spells SignedPair text bytes)
    (hplus : ¬ ['%', '+'] <:+: text) : Spells HexPair text bytes := by
  induction h with
  | nil => exact .nil
  | plain hc _ ih =>
    exact .plain hc (ih fun hin => hplus (hin.trans (List.suffix_cons _ _).isInfix))
  | @escape high low b text bytes pair _ ih =>
    have hpair : HexPair high low b := by
      refine pair.resolve_right fun hsigned => hplus ?_
      rw [hsigned.1]
      exact ⟨[], low :: text, rfl⟩
    refine .escape hpair (ih fun hin => hplus (hin.trans ?_))
    exact ⟨['%', high, low], [], by simp⟩

/-! ## Components -/

/-- Whether a segment stands for a component: for the bytes that it spells, less three where these
are full stops only. One or two full stops stand for none. -/
def StandsFor (rule : EscapeRule) (segment : List Char) (c : Component) : Prop :=
  ∃ bytes, Spells rule segment bytes ∧ bytes ≠ [dot] ∧ bytes ≠ [dot, dot]
    ∧ c.bytes = if allDots bytes then bytes.drop 3 else bytes

variable {segment : List Char} {c : Component}

/-- What stands for a component by a rule does so by a weaker one. -/
theorem StandsFor.mono (hrule : ∀ {high low b}, stronger high low b → rule high low b)
    (h : StandsFor stronger segment c) : StandsFor rule segment c := by
  obtain ⟨bytes, hspells, hrest⟩ := h
  exact ⟨bytes, hspells.mono hrule, hrest⟩

/-- Without a sign after a percent a segment is read by its hexadecimal digits. -/
theorem StandsFor.hexPair_of_not_infix (h : StandsFor SignedPair segment c)
    (hplus : ¬ ['%', '+'] <:+: segment) : StandsFor HexPair segment c := by
  obtain ⟨bytes, hspells, hrest⟩ := h
  exact ⟨bytes, hspells.hexPair_of_not_infix hplus, hrest⟩

/-- All bytes are dots just if each of them is. -/
theorem allDots_iff : allDots bytes = true ↔ ∀ b ∈ bytes, b = dot := by
  rw [allDots, List.all_eq_true]
  simp only [beq_iff_eq]

/-- Of fewer than three full stops there are one or two. -/
theorem length_lt_three_iff (hne : bytes ≠ []) (hdots : allDots bytes = true) :
    bytes.length < 3 ↔ bytes = [dot] ∨ bytes = [dot, dot] := by
  rw [List.eq_replicate_iff.2 ⟨rfl, allDots_iff.1 hdots⟩] at hne ⊢
  rw [List.length_replicate]
  match bytes.length, hne with
  | 1, _ => decide
  | 2, _ => decide
  | n + 3, _ => simp [List.replicate_succ]

/-- Bytes that are not full stops only are not one or two of them. -/
theorem ne_dots_of_not_allDots (hdots : ¬ allDots bytes = true) :
    bytes ≠ [dot] ∧ bytes ≠ [dot, dot] := by
  constructor <;> rintro rfl <;> exact hdots rfl

/-- A segment stands for a component if its bytes are not one or two full stops. -/
theorem exists_standsFor_iff :
    (∃ c, StandsFor rule segment c)
      ↔ ∃ bytes, Spells rule segment bytes ∧ bytes ≠ [dot] ∧ bytes ≠ [dot, dot] := by
  constructor
  · rintro ⟨c, bytes, hspells, hone, htwo, -⟩
    exact ⟨bytes, hspells, hone, htwo⟩
  · rintro ⟨bytes, hspells, hone, htwo⟩
    exact ⟨⟨_⟩, bytes, hspells, hone, htwo, rfl⟩

/-- **Reading a segment finds the component that it stands for.** -/
theorem ofEscaped?_eq_some_iff (hsegment : segment ≠ []) :
    ofEscaped? segment = some c ↔ StandsFor SignedPair segment c := by
  have hsame : ∀ bs : Bytes, some (⟨bs⟩ : Component) = some c ↔ c.bytes = bs := by
    intro bs
    obtain ⟨cs⟩ := c
    rw [Option.some.injEq, Component.mk.injEq, eq_comm]
  rw [ofEscaped?, StandsFor, Option.bind_eq_bind, Option.bind_eq_some_iff]
  refine exists_congr fun bytes => ?_
  rw [unescape?_eq_some_iff]
  refine and_congr_right fun hspells => ?_
  by_cases hdots : allDots bytes = true
  · -- dots alone stand for a component from three on, of which three are extra
    have hshort := length_lt_three_iff (mt hspells.eq_nil_iff.1 hsegment) hdots
    rw [if_pos hdots, if_pos hdots, ← and_assoc, ne_eq, ne_eq, ← not_or, ← hshort]
    split
    · next hlength => exact ⟨nofun, fun h => absurd hlength h.1⟩
    · next hlength =>
      rw [and_iff_right hlength]
      exact hsame _
  · obtain ⟨hone, htwo⟩ := ne_dots_of_not_allDots hdots
    rw [if_neg hdots, if_neg hdots, and_iff_right hone, and_iff_right htwo]
    exact hsame _

/-! ## Writing -/

/-- Whether a character may stand for itself in any URI. -/
def IsUnreserved (c : Char) : Prop := c.isAlphanum = true ∨ c ∈ ['-', '.', '_', '~']

instance (c : Char) : Decidable (IsUnreserved c) :=
  inferInstanceAs (Decidable (c.isAlphanum = true ∨ c ∈ ['-', '.', '_', '~']))

/-- The digits that are written are upper-case ones. -/
theorem upperHexDigit_eq {n : Nat} (hn : n < 16) : upperHexDigit n = n.digitChar.toUpper := by
  have hall : ∀ n < 16, upperHexDigit n = n.digitChar.toUpper := by decide
  exact hall n hn

/-- A byte that is not escaped is written as the character that it encodes. -/
theorem ofNat_toNat_of_isUnreserved {b : UInt8} (h : isUnreserved b = true) :
    IsUnreserved (Char.ofNat b.toNat) ∧ Char.ofNat b.toNat ≠ '%'
      ∧ String.utf8EncodeChar (Char.ofNat b.toNat) = [b] := by
  have hall : ∀ n < 256, isUnreserved (UInt8.ofNat n) = true →
      IsUnreserved (Char.ofNat n) ∧ Char.ofNat n ≠ '%'
        ∧ String.utf8EncodeChar (Char.ofNat n) = [UInt8.ofNat n] := by decide +kernel
  have hb := hall b.toNat b.toNat_lt
  rw [UInt8.ofNat_toNat] at hb
  exact hb h

/-- The text of a byte spells the byte. -/
theorem spells_escapeByte (b : UInt8) : Spells UpperPair (escapeByte b) [b] := by
  rw [escapeByte]
  split
  · next h =>
    obtain ⟨-, hpercent, hutf8⟩ := ofNat_toNat_of_isUnreserved h
    have hspells : Spells UpperPair [Char.ofNat b.toNat] (String.utf8EncodeChar _ ++ []) :=
      .plain hpercent .nil
    rwa [hutf8] at hspells
  · have hb := b.toNat_lt
    exact .escape ⟨upperHexDigit_eq (by omega), upperHexDigit_eq (by omega)⟩ .nil

/-- The texts of bytes spell the bytes. -/
theorem spells_flatMap_escapeByte (bytes : Bytes) :
    Spells UpperPair (bytes.flatMap escapeByte) bytes := by
  induction bytes with
  | nil => exact .nil
  | cons b rest ih => exact (spells_escapeByte b).append ih

/-- **The text of a component stands for the component.** -/
theorem standsFor_escapedChars (c : Component) : StandsFor UpperPair c.escapedChars c := by
  have hbytes := spells_flatMap_escapeByte c.bytes
  rw [escapedChars]
  split
  · next hdots =>
    -- with the three in front the bytes are full stops still, and no fewer than three
    have hfront : Spells UpperPair ['.', '.', '.'] [dot, dot, dot] :=
      .plain (by decide) (.plain (by decide) (.plain (by decide) .nil))
    refine ⟨[dot, dot, dot] ++ c.bytes, hfront.append hbytes, by simp, by simp, ?_⟩
    have hall : allDots ([dot, dot, dot] ++ c.bytes) = true := hdots
    rw [if_pos hall]
    rfl
  · next hdots =>
    obtain ⟨hone, htwo⟩ := ne_dots_of_not_allDots hdots
    exact ⟨c.bytes, hbytes, hone, htwo, (if_neg hdots).symm⟩

/-- The text of a byte is made of unreserved characters and percent signs. -/
theorem mem_escapeByte {b : UInt8} {ch : Char} (h : ch ∈ escapeByte b) :
    ch = '%' ∨ IsUnreserved ch := by
  have hdigit : ∀ n < 16, IsUnreserved n.digitChar.toUpper := by decide
  rw [escapeByte] at h
  split at h
  · next hb =>
    rw [List.mem_singleton.1 h]
    exact .inr (ofNat_toNat_of_isUnreserved hb).1
  · have hb := b.toNat_lt
    rw [upperHexDigit_eq (by omega), upperHexDigit_eq (by omega)] at h
    simp only [List.mem_cons, List.not_mem_nil, or_false] at h
    rcases h with rfl | rfl | rfl
    · exact .inl rfl
    · exact .inr (hdigit _ (by omega))
    · exact .inr (hdigit _ (by omega))

/-- The text of a component is made of unreserved characters and percent signs. -/
theorem mem_escapedChars {ch : Char} (h : ch ∈ c.escapedChars) : ch = '%' ∨ IsUnreserved ch := by
  rcases List.mem_append.1 h with h | h
  · split at h
    · obtain rfl : ch = '.' := by simpa using h
      exact .inr (by decide)
    · exact absurd h List.not_mem_nil
  · obtain ⟨b, -, hb⟩ := List.mem_flatMap.1 h
    exact mem_escapeByte hb

/-- The text of a component is not empty. -/
theorem escapedChars_ne_nil (c : Component) : c.escapedChars ≠ [] := by
  rw [escapedChars]
  split
  · exact List.cons_ne_nil _ _
  · next hdots =>
    intro hnil
    refine hdots ?_
    rw [(spells_flatMap_escapeByte c.bytes).eq_nil_iff.2 hnil]
    rfl

end Component

end NamedContent
