import Mathlib.Data.List.Basic

/-!
# URI references and form encoding

Two text formats of the Java library. `scan` is the character check that the URI constructor makes
on a reference without scheme and authority: an automaton that knows which component it is in (a
colon is refused before the first of slash, question mark and number sign, since it would end a
scheme) and how many hexadecimal digits of an escape are still due.

`encode` is the form encoding of the URL encoder over UTF-8. It is injective, since no
character's encoding is a prefix of another's (`encode_injective`), it leaves exactly the
texts of safe characters unchanged (`encode_eq_self_iff`), and its output has nothing but
safe characters, plus signs and percent signs.
-/

namespace Uri

/-! ### The character check of a reference -/

/-- The component of a reference that a scan is in; `segment` is the path before its first
slash. -/
inductive Part
  | segment
  | path
  | query
  | fragment
  deriving DecidableEq, Repr

/-- The state of a scan: the component, and the digits of an escape that are still due. -/
structure Scan where
  part : Part
  due : Fin 3
  deriving DecidableEq, Repr

def isHex (c : Char) : Bool :=
  c.isDigit || ('a' ≤ c && c ≤ 'f') || ('A' ≤ c && c ≤ 'F')

def isUnreserved (c : Char) : Bool :=
  c.isAlphanum || "-_.!~*'()".toList.contains c

/-- The characters that the Unicode space categories hold, beyond ASCII. -/
def isSpaceChar (c : Char) : Bool :=
  [0xA0, 0x1680, 0x180E, 0x2028, 0x2029, 0x202F, 0x205F, 0x3000].contains c.toNat ||
    (0x2000 ≤ c.toNat && c.toNat ≤ 0x200A)

/-- The `other` characters: visible, and beyond ASCII and the second control block. -/
def isOther (c : Char) : Bool :=
  0x9F < c.toNat && !isSpaceChar c

def Part.admits : Part → Char → Bool
  | .segment, c | .path, c => isUnreserved c || ":@&=+$,;/".toList.contains c || isOther c
  | .query, c | .fragment, c => isUnreserved c || ";/?:@&=+$,[]".toList.contains c || isOther c

/-- The component after a character, where the character is a delimiter that opens one. -/
def Part.next : Part → Char → Part
  | .segment, '/' => .path
  | .segment, '?' => .query
  | .segment, '#' => .fragment
  | .path, '?' => .query
  | .path, '#' => .fragment
  | .query, '#' => .fragment
  | p, _ => p

/-- One character of the check. A colon in the first segment ends what would have to be a
scheme. -/
def step (s : Scan) (c : Char) : Option Scan :=
  if s.due ≠ 0 then
    if isHex c then some { s with due := s.due - 1 } else none
  else if c = '%' then some { s with due := 2 }
  else if s.part = .segment ∧ c = ':' then none
  else if s.part.next c ≠ s.part then some { s with part := s.part.next c }
  else if s.part.admits c then some s else none

def scan (s : Scan) (t : List Char) : Option Scan := t.foldlM step s

def start : Scan := ⟨.segment, 0⟩

/-- The URI constructor on a reference that has a character outside the scheme characters
before its first colon and does not start with a slash: the text itself, or `none` for the
syntax exception. -/
def newURI (t : List Char) : Option (List Char) :=
  match scan start t with
  | some ⟨_, 0⟩ => some t
  | _ => none

theorem newURI_eq_some {t u : List Char} :
    newURI t = some u ↔ t = u ∧ ∃ p, scan start t = some ⟨p, 0⟩ := by
  unfold newURI
  split
  · next p h => simp [h]
  · next h =>
    constructor
    · rintro ⟨⟩
    · rintro ⟨-, p, hp⟩
      exact absurd hp (h p)

@[simp]
theorem scan_nil {s : Scan} : scan s [] = some s := rfl

theorem scan_append {s : Scan} {t u : List Char} :
    scan s (t ++ u) = (scan s t).bind fun s' => scan s' u :=
  List.foldlM_append

/-- The characters that every component admits and none treats specially. -/
def isPlain (c : Char) : Bool :=
  isUnreserved c || "&=+$,;@".toList.contains c

theorem ne_of_isPlain {c d : Char} (hc : isPlain c = true) (hd : isPlain d = false) : c ≠ d := by
  rintro rfl
  rw [hc] at hd
  cases hd

theorem Part.next_of_isPlain {p : Part} {c : Char} (hc : isPlain c = true) : p.next c = p := by
  have hslash : c ≠ '/' := ne_of_isPlain hc (by decide)
  have hquery : c ≠ '?' := ne_of_isPlain hc (by decide)
  have hhash : c ≠ '#' := ne_of_isPlain hc (by decide)
  unfold Part.next
  split <;> first | rfl | contradiction

theorem Part.admits_of_isPlain {p : Part} {c : Char} (hc : isPlain c = true) :
    p.admits c = true := by
  rcases Bool.or_eq_true_iff.mp hc with h | h
  · cases p <;> simp [Part.admits, h]
  · have hmem : c ∈ "&=+$,;@".toList := by simpa using h
    have hall : ∀ d ∈ "&=+$,;@".toList, ∀ q : Part, q.admits d = true := by
      intro d hd q
      revert d
      cases q <;> exact List.all_eq_true.mp (by decide)
    exact hall c hmem p

theorem step_of_isPlain {s : Scan} {c : Char} (hs : s.due = 0) (hc : isPlain c = true) :
    step s c = some s := by
  have hpct : c ≠ '%' := ne_of_isPlain hc (by decide)
  have hcolon : c ≠ ':' := ne_of_isPlain hc (by decide)
  simp [step, hs, hpct, hcolon, Part.next_of_isPlain hc, Part.admits_of_isPlain hc]

theorem scan_of_isPlain {s : Scan} {t : List Char} (hs : s.due = 0)
    (ht : ∀ c ∈ t, isPlain c = true) : scan s t = some s := by
  induction t with
  | nil => rfl
  | cons c t ih =>
    have hstep : step s c = some s := step_of_isPlain hs (ht c List.mem_cons_self)
    have hrest : scan s t = some s := ih fun d hd => ht d (List.mem_cons_of_mem _ hd)
    rw [scan, List.foldlM_cons, hstep]
    exact hrest

theorem scan_cons_of_isPlain {s : Scan} {c : Char} {t : List Char} (hc : isHex c = false)
    (ht : ∀ d ∈ c :: t, isPlain d = true) :
    scan s (c :: t) = if s.due = 0 then some s else none := by
  split_ifs with hs
  · exact scan_of_isPlain hs ht
  · rw [scan, List.foldlM_cons]
    simp [step, hs, hc]

def scanText (s : Scan) (t : List Char) : Option Scan :=
  (scan s t).filter fun s' => s'.due = 0

/-- **Legal texts**: the check of the texts one after the other, each of which completes its
own escapes. -/
def legal (ts : List (List Char)) : Bool := (ts.foldlM scanText start).isSome

theorem due_of_scanText {s s' : Scan} {t : List Char} (h : scanText s t = some s') :
    s'.due = 0 := by
  simpa using (Option.filter_eq_some_iff.mp h).2

theorem due_of_foldlM_scanText {s s' : Scan} {ts : List (List Char)} (hs : s.due = 0)
    (h : ts.foldlM scanText s = some s') : s'.due = 0 := by
  induction ts generalizing s with
  | nil =>
    obtain rfl := Option.some.inj h
    exact hs
  | cons t ts ih =>
    rw [List.foldlM_cons] at h
    obtain ⟨s₁, hs₁, hrest⟩ := Option.bind_eq_some_iff.mp h
    exact ih (due_of_scanText hs₁) hrest

theorem blank_lt_of_step {s s' : Scan} {c : Char} (h : step s c = some s') : ' ' < c := by
  by_contra hle
  have hlt : c.toNat < 33 := by
    have hval : c.toNat ≤ ' '.toNat := Char.not_lt.mp hle
    exact Nat.lt_succ_of_le hval
  have hnone : ∀ n : Fin 33, ∀ d : Fin 3, step ⟨.segment, d⟩ (Char.ofNat n) = none ∧
      step ⟨.path, d⟩ (Char.ofNat n) = none ∧ step ⟨.query, d⟩ (Char.ofNat n) = none ∧
      step ⟨.fragment, d⟩ (Char.ofNat n) = none := by decide
  obtain ⟨part, due⟩ := s
  obtain ⟨hseg, hpath, hquery, hfrag⟩ := hnone ⟨c.toNat, hlt⟩ due
  rw [Char.ofNat_toNat] at hseg hpath hquery hfrag
  cases part <;> simp_all

theorem blank_lt_of_scan {s s' : Scan} {t : List Char} (h : scan s t = some s') :
    ∀ c ∈ t, ' ' < c := by
  induction t generalizing s with
  | nil => simp
  | cons c t ih =>
    rw [scan, List.foldlM_cons] at h
    obtain ⟨s₁, hs₁, hrest⟩ := Option.bind_eq_some_iff.mp h
    exact List.forall_mem_cons.mpr ⟨blank_lt_of_step hs₁, ih hrest⟩

theorem blank_lt_of_legal {ts : List (List Char)} (h : legal ts = true) :
    ∀ t ∈ ts, ∀ c ∈ t, ' ' < c := by
  have hall : ∀ {s s' : Scan} {ts : List (List Char)}, ts.foldlM scanText s = some s' →
      ∀ t ∈ ts, ∀ c ∈ t, ' ' < c := by
    intro s s' ts
    induction ts generalizing s with
    | nil => simp
    | cons t ts ih =>
      intro h
      rw [List.foldlM_cons] at h
      obtain ⟨s₁, hs₁, hrest⟩ := Option.bind_eq_some_iff.mp h
      have ht : scan s t = some s₁ := (Option.filter_eq_some_iff.mp hs₁).1
      exact List.forall_mem_cons.mpr ⟨blank_lt_of_scan ht, ih hrest⟩
  obtain ⟨s', hs'⟩ := Option.isSome_iff_exists.mp h
  exact hall hs'

theorem scan_append_separator {s : Scan} {t sep u : List Char} {c : Char}
    (hc : isHex c = false) (hsep : ∀ d ∈ c :: sep, isPlain d = true) :
    scan s (t ++ (c :: sep) ++ u) = (scanText s t).bind fun s' => scan s' u := by
  rw [List.append_assoc, scan_append, scanText]
  cases hscan : scan s t with
  | none => rfl
  | some s' =>
    rw [Option.bind_some, scan_append, scan_cons_of_isPlain hc hsep]
    by_cases hdue : s'.due = 0 <;> simp [Option.filter, hdue]

/-! ### Form encoding -/

def isSafe (c : Char) : Bool := c.isAlphanum || "-_.*".toList.contains c

theorem blank_lt_of_isSafe {c : Char} (hc : isSafe c = true) : ' ' < c := by
  have hplain : isPlain c = true := by
    rcases Bool.or_eq_true_iff.mp hc with h | h
    · simp [isPlain, isUnreserved, h]
    · have hmark : ∀ d ∈ "-_.*".toList, isPlain d = true := List.all_eq_true.mp (by decide)
      exact hmark c (by simpa using h)
  exact blank_lt_of_step (step_of_isPlain (s := start) rfl hplain)

def hexDigit (n : Nat) : Char := "0123456789ABCDEF".toList.getD n '0'

def escape (b : UInt8) : List Char := ['%', hexDigit (b.toNat / 16), hexDigit (b.toNat % 16)]

/-- The encoding of one character: itself, a plus sign for the blank, or the escapes of its
UTF-8 bytes. -/
def encodeChar (c : Char) : List Char :=
  if isSafe c then [c]
  else if c = ' ' then ['+']
  else (String.utf8EncodeChar c).flatMap escape

def encode (t : List Char) : List Char := t.flatMap encodeChar

@[simp]
theorem encode_nil : encode [] = [] := rfl

@[simp]
theorem encode_cons {c : Char} {t : List Char} : encode (c :: t) = encodeChar c ++ encode t := rfl

theorem hexDigit_inj {m n : Nat} (hm : m < 16) (hn : n < 16) (h : hexDigit m = hexDigit n) :
    m = n := by
  have hall : ∀ m n : Fin 16, hexDigit m = hexDigit n → m = n := by decide
  have hfin := hall ⟨m, hm⟩ ⟨n, hn⟩ h
  simpa using hfin

theorem isSafe_hexDigit {n : Nat} (hn : n < 16) : isSafe (hexDigit n) = true := by
  have hall : ∀ n : Fin 16, isSafe (hexDigit n) = true := by decide
  exact hall ⟨n, hn⟩

theorem escape_inj {a b : UInt8} (h : escape a = escape b) : a = b := by
  have ha : a.toNat < 256 := a.toNat_lt
  have hb : b.toNat < 256 := b.toNat_lt
  simp only [escape, List.cons.injEq, and_true, true_and] at h
  have hhigh : a.toNat / 16 = b.toNat / 16 := hexDigit_inj (by omega) (by omega) h.1
  have hlow : a.toNat % 16 = b.toNat % 16 := hexDigit_inj (by omega) (by omega) h.2
  exact UInt8.toNat_inj.mp (by omega)

/-- Of two byte runs whose escapes start one text, one is a prefix of the other. -/
private theorem prefix_of_flatMap_escape {as bs : List UInt8} :
    ∀ {t u : List Char}, as.flatMap escape ++ t = bs.flatMap escape ++ u →
      as <+: bs ∨ bs <+: as := by
  induction as generalizing bs with
  | nil =>
    intro t u _
    exact Or.inl List.nil_prefix
  | cons a as ih =>
    intro t u h
    cases bs with
    | nil => exact Or.inr List.nil_prefix
    | cons b bs =>
      rw [List.flatMap_cons, List.flatMap_cons, List.append_assoc, List.append_assoc] at h
      obtain ⟨hab, hrest⟩ := List.append_inj h rfl
      obtain rfl := escape_inj hab
      rcases ih hrest with hp | hp
      · exact Or.inl (List.cons_prefix_cons.mpr ⟨rfl, hp⟩)
      · exact Or.inr (List.cons_prefix_cons.mpr ⟨rfl, hp⟩)

/-- UTF-8 is a prefix code. -/
private theorem eq_of_utf8_append {c d : Char}
    (h : String.utf8EncodeChar c <+: String.utf8EncodeChar d) : c = d := by
  obtain ⟨t, ht⟩ := h
  have hc : ByteArray.utf8DecodeChar? ((String.utf8EncodeChar c).toByteArray ++ t.toByteArray) 0
      = some c := ByteArray.utf8DecodeChar?_utf8EncodeChar_append
  have hd : ByteArray.utf8DecodeChar? ((String.utf8EncodeChar d).toByteArray ++ [].toByteArray) 0
      = some d := ByteArray.utf8DecodeChar?_utf8EncodeChar_append
  rw [← List.toByteArray_append, ht] at hc
  rw [← List.toByteArray_append, List.append_nil] at hd
  exact Option.some.inj (hc.symm.trans hd)

/-- The first character of an encoding tells which of its three forms it has. -/
private theorem encodeChar_cases (c : Char) :
    (isSafe c = true ∧ encodeChar c = [c]) ∨ (c = ' ' ∧ encodeChar c = ['+']) ∨
      (isSafe c = false ∧ encodeChar c = (String.utf8EncodeChar c).flatMap escape ∧
        ∃ t, encodeChar c = '%' :: t ∧ 2 ≤ t.length) := by
  by_cases hsafe : isSafe c = true
  · exact Or.inl ⟨hsafe, by simp [encodeChar, hsafe]⟩
  · by_cases hblank : c = ' '
    · subst hblank
      exact Or.inr (Or.inl ⟨rfl, by decide⟩)
    · have henc : encodeChar c = (String.utf8EncodeChar c).flatMap escape := by
        simp [encodeChar, hsafe, hblank]
      refine Or.inr (Or.inr ⟨by simpa using hsafe, henc, ?_⟩)
      obtain ⟨b, bs, hb⟩ := List.exists_cons_of_ne_nil (String.utf8EncodeChar_ne_nil (c := c))
      rw [henc, hb, List.flatMap_cons, escape]
      exact ⟨_, rfl, by simp⟩

/-- **No character's encoding is a prefix of another's.** -/
private theorem encodeChar_append_inj {c d : Char} {t u : List Char}
    (h : encodeChar c ++ t = encodeChar d ++ u) : c = d := by
  rcases encodeChar_cases c with ⟨hc, hec⟩ | ⟨rfl, hec⟩ | ⟨hc, hec, t', ht', -⟩ <;>
    rcases encodeChar_cases d with ⟨hd, hed⟩ | ⟨rfl, hed⟩ | ⟨hd, hed, u', hu', -⟩
  · rw [hec, hed] at h
    exact (List.cons_eq_cons.mp h).1
  · rw [hec, hed] at h
    rw [(List.cons_eq_cons.mp h).1] at hc
    exact absurd hc (by decide)
  · rw [hec, hu'] at h
    rw [(List.cons_eq_cons.mp h).1] at hc
    exact absurd hc (by decide)
  · rw [hec, hed] at h
    rw [← (List.cons_eq_cons.mp h).1] at hd
    exact absurd hd (by decide)
  · rfl
  · rw [hec, hu'] at h
    exact absurd (List.cons_eq_cons.mp h).1 (by decide)
  · rw [ht', hed] at h
    rw [← (List.cons_eq_cons.mp h).1] at hd
    exact absurd hd (by decide)
  · rw [ht', hed] at h
    exact absurd (List.cons_eq_cons.mp h).1 (by decide)
  · rw [hec, hed] at h
    rcases prefix_of_flatMap_escape h with hp | hp
    · exact eq_of_utf8_append hp
    · exact (eq_of_utf8_append hp).symm

/-- **Form encoding is injective.** -/
theorem encode_injective : Function.Injective encode := by
  intro t
  induction t with
  | nil =>
    intro u h
    cases u with
    | nil => rfl
    | cons d u =>
      rcases encodeChar_cases d with ⟨-, hd⟩ | ⟨-, hd⟩ | ⟨-, -, u', hd, -⟩ <;> simp [hd] at h
  | cons c t ih =>
    intro u h
    cases u with
    | nil =>
      rcases encodeChar_cases c with ⟨-, hc⟩ | ⟨-, hc⟩ | ⟨-, -, t', hc, -⟩ <;> simp [hc] at h
    | cons d u =>
      rw [encode_cons, encode_cons] at h
      obtain rfl := encodeChar_append_inj h
      rw [ih (List.append_cancel_left h)]

theorem length_le_length_encode {t : List Char} : t.length ≤ (encode t).length := by
  induction t with
  | nil => exact Nat.le_refl 0
  | cons c t ih =>
    rcases encodeChar_cases c with ⟨-, hc⟩ | ⟨-, hc⟩ | ⟨-, -, t', hc, -⟩ <;> simp [hc] <;> omega

/-- **Encoding leaves a text unchanged** exactly when all of its characters are safe. -/
theorem encode_eq_self_iff {t : List Char} : encode t = t ↔ ∀ c ∈ t, isSafe c = true := by
  induction t with
  | nil => simp
  | cons c t ih =>
    rw [encode_cons, List.forall_mem_cons, ← ih]
    rcases encodeChar_cases c with ⟨hsafe, hc⟩ | ⟨rfl, hc⟩ | ⟨hsafe, -, t', hc, hlen⟩
    · simp [hc, hsafe]
    · rw [hc]
      constructor
      · intro h
        exact absurd (List.cons_eq_cons.mp h).1 (by decide)
      · rintro ⟨h, -⟩
        exact absurd h (by decide)
    · have hlt : (c :: t).length < (encodeChar c ++ encode t).length := by
        have hle := length_le_length_encode (t := t)
        simp only [hc, List.length_cons, List.length_append]
        omega
      constructor
      · intro h
        rw [h] at hlt
        exact absurd hlt (Nat.lt_irrefl _)
      · rintro ⟨h, -⟩
        rw [hsafe] at h
        cases h

theorem mem_encode {t : List Char} {c : Char} (h : c ∈ encode t) :
    isSafe c = true ∨ c = '+' ∨ c = '%' := by
  obtain ⟨d, -, hd⟩ := List.mem_flatMap.mp h
  rcases encodeChar_cases d with ⟨hsafe, he⟩ | ⟨-, he⟩ | ⟨-, he, -⟩
  · rw [he, List.mem_singleton] at hd
    exact Or.inl (hd ▸ hsafe)
  · rw [he, List.mem_singleton] at hd
    exact Or.inr (Or.inl hd)
  · rw [he] at hd
    obtain ⟨b, -, hb⟩ := List.mem_flatMap.mp hd
    have hlt : b.toNat < 256 := b.toNat_lt
    simp only [escape, List.mem_cons, List.not_mem_nil, or_false] at hb
    rcases hb with rfl | rfl | rfl
    · exact Or.inr (Or.inr rfl)
    · exact Or.inl (isSafe_hexDigit (by omega))
    · exact Or.inl (isSafe_hexDigit (by omega))

end Uri
