import Mathlib.Data.List.Forall2
import Mathlib.Data.List.Infix
import NamedContent.Name.Uri
import NamedContent.Proofs.Action
import NamedContent.Proofs.Name.Escaping

/-! # Texts that write names

The path of a text is what a leading scheme leaves up to the first question mark or number sign. A
text writes a name if its path starts with a slash and the pieces between slashes that are not empty
stand for the components in order. Reading finds the name that a text writes with a plus sign
allowed in escapes. What is written for a name writes it with upper-case digits, so that every name
reads back.

* `Name.IsPathOf`, `Name.pathSegments`: the path of a text and its segments
* `Name.Writes`: the names that a text writes, with `Name.ofUri_eq_ok_iff` for reading and
  `Name.writes_uriChars` for writing
* `Name.ofUri_eq_error_iff`: why a text is not read
* `Name.Grammatical`: the texts that write a name, with `Name.exists_writes_iff`
* `Name.uri_round_trip`, `Name.ofUri_grammar`: every name reads back, and just the texts of the
  grammar are read -/

namespace NamedContent

/-- Each element of a list has a partner if there is a list of partners. -/
theorem exists_forall₂_iff {α β : Type} {R : α → β → Prop} {xs : List α} :
    (∃ ys, List.Forall₂ R xs ys) ↔ ∀ x ∈ xs, ∃ y, R x y := by
  induction xs with
  | nil => exact iff_of_true ⟨[], .nil⟩ fun _ h => absurd h List.not_mem_nil
  | cons x rest ih =>
    rw [List.forall_mem_cons, ← ih]
    constructor
    · rintro ⟨_, _ | ⟨hx, hrest⟩⟩
      exact ⟨⟨_, hx⟩, _, hrest⟩
    · rintro ⟨⟨y, hx⟩, ys, hrest⟩
      exact ⟨y :: ys, .cons hx hrest⟩

/-- Relations that agree on the elements of a list relate it to the same lists. -/
theorem forall₂_congr_left {α β : Type} {R S : α → β → Prop} {xs : List α} {ys : List β}
    (h : ∀ x ∈ xs, ∀ y, R x y ↔ S x y) : List.Forall₂ R xs ys ↔ List.Forall₂ S xs ys := by
  have hmem : ∀ {T : α → β → Prop}, List.Forall₂ T xs ys
      ↔ List.Forall₂ (fun x y => x ∈ xs ∧ T x y) xs ys := fun {T} => by
    rw [List.forall₂_and_left, and_iff_right fun x hx => hx]
  -- related lists are so by elements of the list alone, where the two relations agree
  rw [hmem, hmem (T := S)]
  exact ⟨.imp fun x y hxy => ⟨hxy.1, (h x hxy.1 y).1 hxy.2⟩,
    .imp fun x y hxy => ⟨hxy.1, (h x hxy.1 y).2 hxy.2⟩⟩

namespace Name

open Component (dot IsUnreserved)
open Component (EscapeRule UpperPair HexPair SignedPair Spells EachEscaped StandsFor)

/-! ## Paths -/

/-- Whether a text is the path in another: a leading scheme stands before it, if there is one, and
behind it nothing or a question mark or number sign, of which it has none itself. -/
def IsPathOf (p uri : List Char) : Prop :=
  ∃ body rest, (uri = scheme ++ body ∨ ¬ scheme <+: uri ∧ uri = body) ∧ body = p ++ rest
    ∧ (∀ c ∈ p, c ≠ '?' ∧ c ≠ '#') ∧ ∀ c ∈ rest.head?, c = '?' ∨ c = '#'

/-- The segments of a path: the pieces between slashes that are not empty. -/
def pathSegments (p : List Char) : List (List Char) := (p.splitOn '/').filter (!·.isEmpty)

variable {p uri body : List Char}

/-- What is left without a leading scheme. -/
theorem eq_dropScheme_iff :
    body = dropScheme uri ↔ uri = scheme ++ body ∨ ¬ scheme <+: uri ∧ uri = body := by
  rw [dropScheme]
  split
  · next h =>
    rw [List.isPrefixOf_iff_prefix] at h
    obtain ⟨rest, rfl⟩ := h
    rw [List.drop_left]
    simp [eq_comm]
  · next h =>
    rw [List.isPrefixOf_iff_prefix] at h
    have hno : uri ≠ scheme ++ body := fun heq => h ⟨body, heq.symm⟩
    simp [h, hno, eq_comm]

/-- What stands before the first question mark or number sign. -/
theorem eq_path_iff :
    p = path body ↔ ∃ rest, body = p ++ rest ∧ (∀ c ∈ p, c ≠ '?' ∧ c ≠ '#')
      ∧ ∀ c ∈ rest.head?, c = '?' ∨ c = '#' := by
  constructor
  · rintro rfl
    refine ⟨_, List.takeWhile_append_dropWhile.symm, fun c hc => ?_, fun c hc => ?_⟩
    · simpa using List.all_eq_true.1 List.all_takeWhile c hc
    · have hstop := List.head?_dropWhile_not (fun c => c != '?' && c != '#') body
      rw [Option.mem_def.1 hc] at hstop
      simpa [or_iff_not_imp_left] using hstop
  · rintro ⟨rest, rfl, hp, hrest⟩
    have hback : path rest = [] := by
      cases rest with
      | nil => rfl
      | cons c _ =>
        exact List.takeWhile_cons_of_neg (by simpa [or_iff_not_imp_left] using hrest c rfl)
    have hfront : ∀ c ∈ p, (c != '?' && c != '#') = true := fun c hc => by simpa using hp c hc
    rw [path, List.takeWhile_append_of_pos hfront, ← path, hback, List.append_nil]

/-- **The path of a text** is the one that reading takes. -/
theorem isPathOf_iff : IsPathOf p uri ↔ p = path (dropScheme uri) := by
  simp only [IsPathOf, eq_path_iff, ← eq_dropScheme_iff, exists_and_left, exists_eq_left]

/-- A path is a part of its text. -/
theorem IsPathOf.isInfix (h : IsPathOf p uri) : p <:+: uri := by
  obtain ⟨_, rest, huri, rfl, -⟩ := h
  rcases huri with rfl | ⟨-, rfl⟩
  · exact ⟨scheme, rest, List.append_assoc ..⟩
  · exact ⟨[], rest, rfl⟩

/-! ## Segments -/

/-- The pieces between slashes, found one character after the other. -/
theorem pieces_eq_splitOn (text : List Char) : pieces text = text.splitOn '/' := by
  induction text with
  | nil => rfl
  | cons c rest ih =>
    rw [pieces, List.splitOn_cons_eq_if_modifyHead, ih]
    by_cases hc : c = '/'
    · rw [if_pos hc, if_pos (beq_iff_eq.2 hc)]
    · rw [if_neg hc, if_neg (by simpa using hc)]
      cases hsplit : rest.splitOn '/' with
      | nil => exact absurd hsplit (List.splitOn_ne_nil _ _)
      | cons piece more => rfl

/-- The segments of a path are not empty. -/
theorem ne_nil_of_mem_pathSegments {s : List Char} (h : s ∈ pathSegments p) : s ≠ [] := by
  simpa using (List.mem_filter.1 h).2

/-- A segment is a part of its path. -/
theorem isInfix_of_mem_pathSegments {s : List Char} (h : s ∈ pathSegments p) : s <:+: p := by
  obtain ⟨i, hi⟩ := List.mem_iff_getElem?.1 (List.mem_filter.1 h).1
  have hplace : ((p.splitOn '/').intersperse ['/'])[2 * i]? = some s := by
    rw [List.getElem?_intersperse_two_mul, hi]
  have hinfix := List.infix_of_mem_flatten (List.mem_of_getElem? hplace)
  rwa [← List.intercalate, List.intercalate_splitOn] at hinfix

/-! ## Reading -/

/-- Whether a text writes a name under a rule for escapes: its path starts with a slash, and the
segments stand for the components in order. -/
def Writes (rule : EscapeRule) (uri : List Char) (n : Name) : Prop :=
  ∃ p, IsPathOf p uri ∧ p.head? = some '/'
    ∧ List.Forall₂ (StandsFor rule) (pathSegments p) n.components

/-- Whether a text keeps to the grammar: its path starts with a slash, and in each segment every
percent sign has its escape and the bytes spelled are not one or two full stops. -/
def Grammatical (rule : EscapeRule) (uri : List Char) : Prop :=
  ∃ p, IsPathOf p uri ∧ p.head? = some '/' ∧ ∀ s ∈ pathSegments p,
    EachEscaped rule s ∧ ∀ bytes, Spells rule s bytes → bytes ≠ [dot] ∧ bytes ≠ [dot, dot]

variable {rule stronger : EscapeRule} {n : Name}

/-- What writes a name by a rule does so by a weaker one. -/
theorem Writes.mono (hrule : ∀ {high low b}, stronger high low b → rule high low b)
    (h : Writes stronger uri n) : Writes rule uri n := by
  obtain ⟨p, hp, hslash, hall⟩ := h
  exact ⟨p, hp, hslash, hall.imp fun _ _ hs => hs.mono hrule⟩

/-- What reading makes of a segment. -/
def readSegment (s : List Char) : Except NameError Component :=
  match Component.ofEscaped? s with
  | some c => .ok c
  | none => .error (.invalidUri (String.ofList s))

/-- A segment is read just as what it stands for. -/
theorem readSegment_eq_ok_iff {s : List Char} (hs : s ≠ []) {c : Component} :
    readSegment s = .ok c ↔ StandsFor SignedPair s c := by
  rw [← Component.ofEscaped?_eq_some_iff hs, readSegment]
  cases Component.ofEscaped? s with
  | none => exact ⟨nofun, nofun⟩
  | some found => rw [Except.ok.injEq, Option.some.injEq]

/-- A segment is refused, and quoted in the error, just if it stands for nothing. -/
theorem readSegment_eq_error_iff {s : List Char} (hs : s ≠ []) {e : NameError} :
    readSegment s = .error e
      ↔ (¬ ∃ c, StandsFor SignedPair s c) ∧ e = .invalidUri (String.ofList s) := by
  simp only [← Component.ofEscaped?_eq_some_iff hs, readSegment]
  cases Component.ofEscaped? s with
  | none => simp [eq_comm]
  | some c => simp

/-- A text is read segment by segment, if its path starts with a slash. -/
theorem ofUri_eq (uri : String) :
    ofUri uri = if (path (dropScheme uri.toList)).head? = some '/' then
        (pathSegments (path (dropScheme uri.toList))).mapM readSegment >>= fun cs => .ok ⟨cs⟩
      else .error (.invalidUri uri) := by
  rw [ofUri, pathSegments, ← pieces_eq_splitOn]
  by_cases hslash : (path (dropScheme uri.toList)).head? = some '/'
  · rw [if_pos hslash, if_neg (by simpa using hslash)]
    rfl
  · rw [if_neg hslash, if_pos (by simpa using hslash)]
    rfl

/-- **Reading finds the name that a text writes**, with a plus sign allowed in escapes, and fails
where it writes none. -/
theorem ofUri_eq_ok_iff {uri : String} : ofUri uri = .ok n ↔ Writes SignedPair uri.toList n := by
  obtain ⟨components⟩ := n
  simp only [Writes, isPathOf_iff, exists_eq_left]
  rw [ofUri_eq, ← forall₂_congr_left fun s hs c =>
    readSegment_eq_ok_iff (ne_nil_of_mem_pathSegments hs), ← mapM_eq_ok_iff]
  split
  · next hslash =>
    rw [and_iff_right hslash, bind_eq_ok_iff]
    simp only [Except.ok.injEq, Name.mk.injEq, exists_eq_right]
  · next hslash => exact ⟨nofun, fun h => absurd h.1 hslash⟩

/-- **Why a text is not read**: the error names the text if its path does not start with a slash,
else its first segment that stands for no component. -/
theorem ofUri_eq_error_iff {uri : String} {e : NameError} :
    ofUri uri = .error e ↔ ∃ p, IsPathOf p uri.toList
      ∧ (p.head? ≠ some '/' ∧ e = .invalidUri uri
        ∨ p.head? = some '/' ∧ ∃ front s rest, pathSegments p = front ++ s :: rest
          ∧ (∀ t ∈ front, ∃ c, StandsFor SignedPair t c)
          ∧ (¬ ∃ c, StandsFor SignedPair s c) ∧ e = .invalidUri (String.ofList s)) := by
  simp only [isPathOf_iff, exists_eq_left]
  rw [ofUri_eq]
  split
  · next hslash =>
    rw [or_iff_right fun h => h.1 hslash, and_iff_right hslash]
    -- a name is always made of the components that are read
    have hname : ∀ cs, (Except.ok ⟨cs⟩ : Except NameError Name) ≠ .error e := fun _ => nofun
    rw [bind_eq_error_iff, or_iff_left fun ⟨cs, _, h⟩ => hname cs h, mapM_eq_error_iff]
    refine exists_congr fun front => exists_congr fun s => exists_congr fun rest => ?_
    refine and_congr_right fun hsegments => ?_
    have hne : ∀ t ∈ front ++ s :: rest, t ≠ [] := fun t ht =>
      ne_nil_of_mem_pathSegments (hsegments ▸ ht)
    rw [readSegment_eq_error_iff (hne s (by simp))]
    refine and_congr_left fun _ => forall₂_congr fun t ht => exists_congr fun c => ?_
    exact readSegment_eq_ok_iff (hne t (List.mem_append_left _ ht))
  · next hslash =>
    rw [or_iff_left fun h => hslash h.1, and_iff_right hslash, Except.error.injEq, eq_comm]

/-- **Just the texts that keep to the grammar write a name.** -/
theorem exists_writes_iff (hrule : ∀ {high low b}, rule high low b → SignedPair high low b) :
    (∃ n, Writes rule uri n) ↔ Grammatical rule uri := by
  have hsegment : ∀ s, (∃ c, StandsFor rule s c) ↔ EachEscaped rule s
      ∧ ∀ bytes, Spells rule s bytes → bytes ≠ [dot] ∧ bytes ≠ [dot, dot] := by
    intro s
    rw [Component.exists_standsFor_iff, ← Component.exists_spells_iff hrule]
    constructor
    · rintro ⟨bytes, hspells, hdots⟩
      exact ⟨⟨bytes, hspells⟩, fun others hothers => hspells.unique hrule hothers ▸ hdots⟩
    · rintro ⟨⟨bytes, hspells⟩, hdots⟩
      exact ⟨bytes, hspells, hdots bytes hspells⟩
  constructor
  · rintro ⟨n, p, hp, hslash, hall⟩
    exact ⟨p, hp, hslash, fun s hs =>
      (hsegment s).1 (exists_forall₂_iff.1 ⟨n.components, hall⟩ s hs)⟩
  · rintro ⟨p, hp, hslash, hall⟩
    obtain ⟨components, hcomponents⟩ := exists_forall₂_iff.2 fun s hs => (hsegment s).2 (hall s hs)
    exact ⟨⟨components⟩, p, hp, hslash, hcomponents⟩

/-- Without a plus sign behind a percent sign, a text writes the same names by digits alone. -/
theorem writes_hexPair_iff (hplus : ¬ ['%', '+'] <:+: uri) :
    Writes SignedPair uri n ↔ Writes HexPair uri n := by
  refine exists_congr fun p => and_congr_right fun hp => and_congr_right fun _ => ?_
  refine forall₂_congr_left fun s hs c => ⟨fun h => ?_, fun h => h.mono HexPair.signedPair⟩
  exact h.hexPair_of_not_infix fun hin =>
    hplus (hin.trans ((isInfix_of_mem_pathSegments hs).trans hp.isInfix))

/-! ## Writing -/

/-- The text of a component has no slash. -/
theorem slash_not_mem_escapedChars (c : Component) : '/' ∉ c.escapedChars :=
  fun h => absurd (Component.mem_escapedChars h) (by decide)

/-- A slash in front of each component's text makes as many pieces. -/
theorem splitOn_flatMap_escapedChars {front : List Char} (hfront : '/' ∉ front)
    (cs : List Component) :
    (front ++ cs.flatMap fun c => '/' :: c.escapedChars).splitOn '/'
      = front :: cs.map Component.escapedChars := by
  -- what stands in front of the next slash is a whole piece, as no component's text has a slash
  induction cs generalizing front with
  | nil =>
    rw [List.flatMap_nil, List.append_nil, List.splitOn_eq_singleton hfront]
    rfl
  | cons c rest ih =>
    rw [List.flatMap_cons, List.cons_append, List.splitOn_append_cons_self_of_not_mem hfront,
      ih (slash_not_mem_escapedChars c)]
    rfl

/-- The text of a name with components has a slash before each of them. -/
@[simp] theorem uriChars_cons (c : Component) (rest : List Component) :
    (⟨c :: rest⟩ : Name).uriChars
      = (c :: rest).flatMap fun c => '/' :: c.escapedChars := rfl

/-- The segments of a written name are the texts of its components. -/
theorem pathSegments_uriChars (n : Name) :
    pathSegments n.uriChars = n.components.map Component.escapedChars := by
  obtain ⟨components⟩ := n
  cases components with
  | nil => rfl
  | cons c rest =>
    have hpieces := splitOn_flatMap_escapedChars (List.not_mem_nil (a := '/')) (c :: rest)
    rw [List.nil_append] at hpieces
    -- of the pieces only the one in front of the first slash is empty
    rw [pathSegments, uriChars_cons, hpieces, List.filter_cons_of_neg (by decide)]
    refine List.filter_eq_self.2 fun s hs => ?_
    obtain ⟨c, -, rfl⟩ := List.mem_map.1 hs
    simpa using c.escapedChars_ne_nil

/-- The text of every name begins with a slash. -/
theorem head?_uriChars (n : Name) : n.uriChars.head? = some '/' := by
  obtain ⟨components⟩ := n
  cases components <;> rfl

/-- A written name is made of slashes, percent signs and unreserved characters. -/
theorem mem_uriChars {ch : Char} (h : ch ∈ n.uriChars) :
    ch = '/' ∨ ch = '%' ∨ IsUnreserved ch := by
  rw [uriChars] at h
  split at h
  · exact .inl (List.mem_singleton.1 h)
  · obtain ⟨c, -, hc⟩ := List.mem_flatMap.1 h
    exact (List.mem_cons.1 hc).imp id Component.mem_escapedChars

/-- A written name is all path. -/
theorem isPathOf_uriChars (n : Name) : IsPathOf n.uriChars n.uriChars := by
  -- the scheme starts with a letter, the text of a name with a slash
  have hscheme : ¬ scheme <+: n.uriChars := by
    rintro ⟨rest, h⟩
    have hhead : some 'c' = n.uriChars.head? := congrArg List.head? h
    rw [head?_uriChars] at hhead
    exact absurd hhead (by decide)
  have hreserved : ∀ ch ∈ n.uriChars, ch ≠ '?' ∧ ch ≠ '#' := by
    intro ch hch
    constructor <;> rintro rfl
    · exact absurd (mem_uriChars hch) (by decide)
    · exact absurd (mem_uriChars hch) (by decide)
  exact ⟨_, [], .inr ⟨hscheme, rfl⟩, (List.append_nil _).symm, hreserved, nofun⟩

/-- **What is written for a name writes it**, with upper-case digits. -/
theorem writes_uriChars (n : Name) : Writes UpperPair n.uriChars n := by
  refine ⟨_, isPathOf_uriChars n, head?_uriChars n, ?_⟩
  rw [pathSegments_uriChars, List.forall₂_map_left_iff, List.forall₂_same]
  exact fun c _ => c.standsFor_escapedChars

/-- A written name has two upper-case digits behind each percent sign. -/
theorem eachEscaped_uriChars (n : Name) : EachEscaped UpperPair n.uriChars := by
  have hcomponents : ∀ cs : List Component,
      ∃ bytes, Spells UpperPair (cs.flatMap fun c => '/' :: c.escapedChars) bytes := by
    intro cs
    induction cs with
    | nil => exact ⟨[], .nil⟩
    | cons c rest ih =>
      obtain ⟨bytes, hbytes, -⟩ := c.standsFor_escapedChars
      obtain ⟨others, hothers⟩ := ih
      exact ⟨_, (Spells.plain (by decide) hbytes).append hothers⟩
  -- the slashes spell themselves, so that the whole text spells something
  refine (Component.exists_spells_iff fun h => h.hexPair.signedPair).1 ?_
  obtain ⟨components⟩ := n
  cases components with
  | nil => exact ⟨_, .plain (by decide) .nil⟩
  | cons c rest => exact hcomponents (c :: rest)

/-! ## Round trip and grammar -/

/-- **Every name reads back from its URI**, which therefore tells it from all other names. The URI
is made of slashes, percent signs and unreserved characters, with two upper-case hexadecimal digits
behind each percent sign. -/
theorem uri_round_trip :
    (∀ n : Name, ofUri n.toUri = .ok n) ∧ Function.Injective toUri
      ∧ ∀ n : Name, (∀ ch ∈ n.toUri.toList, ch = '/' ∨ ch = '%' ∨ IsUnreserved ch)
        ∧ EachEscaped UpperPair n.toUri.toList := by
  have htext : ∀ n : Name, n.toUri.toList = n.uriChars := fun n => String.toList_ofList
  have hread : ∀ n : Name, ofUri n.toUri = .ok n := by
    intro n
    rw [ofUri_eq_ok_iff, htext]
    exact (writes_uriChars n).mono fun h => h.hexPair.signedPair
  refine ⟨hread, fun n m h => ?_, fun n => ?_⟩
  · have hsame := hread n
    rw [h, hread m] at hsame
    exact (Except.ok.inj hsame).symm
  · rw [htext]
    exact ⟨fun ch hch => mem_uriChars hch, eachEscaped_uriChars n⟩

/-- **Just the texts of the grammar are read**, each as the name that it writes, where a plus sign
may stand for the first digit of an escape. A text without a plus sign behind a percent sign is read
just when it keeps to the grammar of two digits. -/
theorem ofUri_grammar (uri : String) :
    ((∃ n, ofUri uri = .ok n) ↔ Grammatical SignedPair uri.toList)
      ∧ (∀ n, ofUri uri = .ok n ↔ Writes SignedPair uri.toList n)
      ∧ (¬ ['%', '+'] <:+: uri.toList →
        ((∃ n, ofUri uri = .ok n) ↔ Grammatical HexPair uri.toList)
          ∧ ∀ n, ofUri uri = .ok n ↔ Writes HexPair uri.toList n) := by
  have hread : ∀ n, ofUri uri = .ok n ↔ Writes SignedPair uri.toList n := fun n => ofUri_eq_ok_iff
  refine ⟨(exists_congr hread).trans (exists_writes_iff id), hread, fun hplus => ?_⟩
  have hdigits : ∀ n, ofUri uri = .ok n ↔ Writes HexPair uri.toList n := fun n =>
    (hread n).trans (writes_hexPair_iff hplus)
  exact ⟨(exists_congr hdigits).trans (exists_writes_iff HexPair.signedPair), hdigits⟩

/-- **A plus sign is read as a digit.** A text with one in an escape is read, though it does not
keep to the grammar of two digits. -/
theorem reads_plus_sign :
    ofUri "/%+5" = .ok ⟨[⟨[5]⟩]⟩ ∧ ¬ Grammatical HexPair "/%+5".toList := by
  refine ⟨by decide +kernel, ?_⟩
  rintro ⟨p, hp, -, hall⟩
  obtain rfl : p = ['/', '%', '+', '5'] := isPathOf_iff.1 hp
  obtain ⟨hescaped, -⟩ := hall ['%', '+', '5'] (by decide)
  obtain ⟨high, low, b, more, hplus, hhigh, -⟩ := hescaped [] ['+', '5'] rfl
  cases hplus
  exact hhigh.ne_sign.1 rfl

end Name

end NamedContent
