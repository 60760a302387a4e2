import OfficeAuto.Datafile.Record
import OfficeAuto.Logic.Result

/-!
# Delimited lines

The line of a delimited record with a text delimiter is the texts of the fields, each between two
text delimiters, with the delimiter in between.

Which lines are read back is decided text by text (`Readable`): a text without the delimiter always
is. One with the delimiter is not if it is the last one, because the reader drops a delimiter after
it, nor if the text delimiter has several characters and the piece of the text before the first
delimiter makes it look complete. The texts are read by the fields that are no expressions, in
their order, so that the record is restored if each of these texts and the text of each expression
is converted to the value of the field (`Restores`).
-/

namespace OfficeAuto.Datafile

variable {V : Type}

/-! ### Lines -/

def quoted (textDelimiter text : List Char) : List Char := textDelimiter ++ text ++ textDelimiter

def delimitedLine (delimiter : Char) (textDelimiter : List Char) : List (List Char) → List Char
  | [] => []
  | [text] => quoted textDelimiter text
  | text :: texts =>
    quoted textDelimiter text ++ delimiter :: delimitedLine delimiter textDelimiter texts

def delimitedTokens (delimiter : Char) (textDelimiter : List Char) :
    List (List Char) → List (List Char)
  | [] => []
  | [text] => Text.tokensDelims delimiter (quoted textDelimiter text)
  | text :: texts => Text.tokensDelims delimiter (quoted textDelimiter text) ++
      [delimiter] :: delimitedTokens delimiter textDelimiter texts

section Line

variable {d : Char} {td : List Char}

theorem delimitedLine_cons (text : List Char) {texts : List (List Char)} (h : texts ≠ []) :
    delimitedLine d td (text :: texts) = quoted td text ++ d :: delimitedLine d td texts := by
  obtain ⟨u, us, rfl⟩ := List.exists_cons_of_ne_nil h
  rfl

theorem delimitedTokens_cons (text : List Char) {texts : List (List Char)} (h : texts ≠ []) :
    delimitedTokens d td (text :: texts) =
      Text.tokensDelims d (quoted td text) ++ [d] :: delimitedTokens d td texts := by
  obtain ⟨u, us, rfl⟩ := List.exists_cons_of_ne_nil h
  rfl

theorem tokensDelims_delimitedLine (texts : List (List Char)) :
    Text.tokensDelims d (delimitedLine d td texts) = delimitedTokens d td texts := by
  induction texts with
  | nil => rfl
  | cons text texts ih =>
    rcases eq_or_ne texts [] with rfl | hne
    · rfl
    · rw [delimitedLine_cons text hne, delimitedTokens_cons text hne,
        Text.tokensDelims_append, ih]

theorem flatMap_quoted_ne_nil {texts : List (List Char)} (h : texts ≠ []) :
    (texts.flatMap fun text => quoted td text ++ [d]) ≠ [] := by
  obtain ⟨u, us, rfl⟩ := List.exists_cons_of_ne_nil h
  simp

theorem dropLast_flatMap {texts : List (List Char)} (h : texts ≠ []) :
    (texts.flatMap fun text => quoted td text ++ [d]).dropLast = delimitedLine d td texts := by
  induction texts with
  | nil => exact absurd rfl h
  | cons text texts ih =>
    rcases eq_or_ne texts [] with rfl | hne
    · simp [delimitedLine]
    · rw [List.flatMap_cons, List.dropLast_append_of_ne_nil (flatMap_quoted_ne_nil hne), ih hne,
        delimitedLine_cons text hne, List.append_assoc, List.singleton_append]

theorem suffix_delimitedLine {texts : List (List Char)} (h : texts ≠ []) :
    td <:+ delimitedLine d td texts := by
  induction texts with
  | nil => exact absurd rfl h
  | cons text texts ih =>
    rcases eq_or_ne texts [] with rfl | hne
    · exact List.suffix_append _ _
    · rw [delimitedLine_cons text hne]
      exact (ih hne).trans ((List.suffix_cons _ _).trans (List.suffix_append _ _))

theorem getLast?_delimitedLine (hd : d ∉ td) (htd : td ≠ []) {texts : List (List Char)}
    (h : texts ≠ []) : (delimitedLine d td texts).getLast? ≠ some d := by
  have hsuffix : td <:+ delimitedLine d td texts := suffix_delimitedLine h
  obtain ⟨pre, hpre⟩ := hsuffix
  intro hlast
  rw [← hpre, List.getLast?_append_of_ne_nil _ htd] at hlast
  exact hd (List.mem_of_getLast? hlast)

theorem mem_delimitedLine {c : Char} {texts : List (List Char)}
    (h : c ∈ delimitedLine d td texts) : c = d ∨ c ∈ td ∨ ∃ text ∈ texts, c ∈ text := by
  have hquoted : ∀ text, c ∈ quoted td text → c ∈ td ∨ c ∈ text := by
    intro text hc
    simp only [quoted, List.mem_append] at hc
    tauto
  induction texts with
  | nil => cases h
  | cons text texts ih =>
    rcases eq_or_ne texts [] with rfl | hne
    · rcases hquoted text h with hc | hc
      · exact .inr (.inl hc)
      · exact .inr (.inr ⟨text, List.mem_cons_self, hc⟩)
    · rw [delimitedLine_cons text hne, List.mem_append, List.mem_cons] at h
      rcases h with h | rfl | h
      · rcases hquoted text h with hc | hc
        · exact .inr (.inl hc)
        · exact .inr (.inr ⟨text, List.mem_cons_self, hc⟩)
      · exact .inl rfl
      · rcases ih h with rfl | hc | ⟨u, hu, hc⟩
        · exact .inl rfl
        · exact .inr (.inl hc)
        · exact .inr (.inr ⟨u, List.mem_cons_of_mem _ hu, hc⟩)

end Line

/-! ### Reading one text -/

/-- The reader gets the text out of a line that goes on with the other texts: it has no delimiter,
or it is not the last one and its first piece does not look complete. -/
def Readable (delimiter : Char) (textDelimiter text : List Char) (texts : List (List Char)) :
    Prop :=
  delimiter ∈ text → texts ≠ [] ∧ (textDelimiter.length = 1 ∨
    ¬ textDelimiter <:+ textDelimiter ++ text.takeWhile (· != delimiter))

section Read

variable {d : Char} {td : List Char}

theorem suffix_of_suffix_append_cons (hd : d ∉ td) {u v : List Char} (h : td <:+ u ++ d :: v) :
    td <:+ v := by
  rcases List.suffix_or_suffix_of_suffix h (List.suffix_append u (d :: v)) with h | h
  · rcases List.suffix_cons_iff.mp h with rfl | h
    · exact absurd List.mem_cons_self hd
    · exact h
  · exact absurd (h.subset List.mem_cons_self) hd

theorem not_suffix_append_cons (hd : d ∉ td) {u v : List Char} (h : ¬ td <:+: v) :
    ¬ td <:+ u ++ d :: v :=
  fun hsuffix => h (suffix_of_suffix_append_cons hd hsuffix).isInfix

theorem joinTokens_of_suffix {s : List Char} (h : td <:+ s) (st : List (List Char)) :
    joinTokens td s st = .ok (s, st) := by
  cases st <;> exact if_pos h

theorem joinTokens_piece {s piece : List Char} (hd : d ∉ piece) (h : ¬ td <:+ s)
    (st : List (List Char)) :
    joinTokens td s (Text.tokensDelims d piece ++ st) = joinTokens td (s ++ piece) st := by
  rw [Text.tokensDelims_of_not_mem hd]
  split_ifs with hpiece
  · rw [hpiece, List.append_nil, List.nil_append]
  · rw [List.singleton_append, joinTokens, if_neg h]

theorem joinTokens_quoted (hd : d ∉ td) (htd : td ≠ []) (s : List Char) {text : List Char}
    (h : ¬ td <:+: text) (st : List (List Char)) :
    joinTokens td (s ++ [d]) (Text.tokensDelims d (text ++ td) ++ st) =
      .ok (s ++ d :: text ++ td, st) := by
  have hnil : ¬ td <:+: [] := fun h => htd (List.infix_nil.mp h)
  by_cases hmem : d ∈ text
  · -- the induction is on the text: its first piece and its first delimiter are added
    obtain ⟨piece, text, rfl, hpiece⟩ := List.eq_append_cons_of_mem hmem
    have hrest : ¬ td <:+: text := fun hwithin =>
      h (hwithin.trans ((List.suffix_cons d text).trans (List.suffix_append piece _)).isInfix)
    have hnone : ¬ td <:+: piece := fun hwithin =>
      h (hwithin.trans (List.prefix_append piece _).isInfix)
    have hstep : joinTokens td (s ++ d :: piece)
        ([d] :: (Text.tokensDelims d (text ++ td) ++ st)) =
        joinTokens td (s ++ d :: piece ++ [d]) (Text.tokensDelims d (text ++ td) ++ st) := by
      rw [joinTokens, if_neg (not_suffix_append_cons hd hnone)]
    rw [List.append_assoc, List.cons_append, Text.tokensDelims_append, List.append_assoc,
      List.cons_append, joinTokens_piece hpiece (not_suffix_append_cons hd hnil),
      List.append_assoc, List.singleton_append, hstep, joinTokens_quoted hd htd _ hrest]
    simp
  · have hmem' : d ∉ text ++ td := by simp [hmem, hd]
    rw [joinTokens_piece hmem' (not_suffix_append_cons hd hnil)]
    have hsuffix : td <:+ s ++ [d] ++ (text ++ td) :=
      (List.suffix_append text td).trans (List.suffix_append _ _)
    rw [joinTokens_of_suffix hsuffix]
    simp
termination_by text.length

theorem stripText_quoted (text : List Char) : stripText td (quoted td text) = .ok text := by
  have hbegins : td <+: quoted td text := by
    rw [quoted, List.append_assoc]
    exact List.prefix_append _ _
  have hsub : Text.substring (quoted td text) td.length
      ((quoted td text).length - td.length) = some text := by
    have hlen : (quoted td text).length = td.length + text.length + td.length := by
      simp [quoted, Nat.add_assoc]
    have hend : (((quoted td text).length : ℤ) - td.length).toNat = (td ++ text).length := by
      rw [hlen, List.length_append]
      omega
    rw [Text.substring, if_pos (by omega), hend, quoted, List.take_left]
    simp
  rw [stripText, if_pos ⟨hbegins, List.suffix_append _ _⟩, hsub]

theorem stripText_piece {piece : List Char} (hwithin : ¬ td <:+: piece)
    (h : td <:+ td ++ piece) : stripText td (td ++ piece) = .error .indexOutOfBounds := by
  have hshort : piece.length < td.length := by
    by_contra hle
    rcases List.suffix_or_suffix_of_suffix h (List.suffix_append td piece) with h' | h'
    · exact hwithin h'.isInfix
    · have hsame := h'.eq_of_length (le_antisymm h'.length_le (not_lt.mp hle))
      exact hwithin (hsame ▸ List.infix_refl _)
  have hsub : Text.substring (td ++ piece) td.length ((td ++ piece).length - td.length) =
      none := by
    rw [Text.substring, if_neg]
    rw [List.length_append]
    omega
  rw [stripText, if_pos ⟨List.prefix_append _ _, h⟩, hsub]

def readText (delimiter : Char) (textDelimiter : List Char) (st : List (List Char)) :
    Except RecordException (Option (List Char) × List (List Char)) :=
  unquote delimiter (some textDelimiter) (nextText delimiter st).1 (nextText delimiter st).2

theorem readText_of_token {strVal : List Char} {st : List (List Char)} (h : strVal ≠ [d]) :
    readText d td (strVal :: st) = unquote d (some td) (some strVal) st.tail := by
  rw [readText, nextText, if_neg h]

theorem unquote_eq {strVal text : List Char} {st st' : List (List Char)}
    (hjoin : joinText d td strVal st = .ok (quoted td text, st')) :
    unquote d (some td) (some strVal) st = .ok (some text, st') := by
  rw [unquote, hjoin]
  change (do let strVal ← stripText td (quoted td text); pure (some strVal, st')) = _
  rw [stripText_quoted]
  rfl

theorem not_mem_quoted (hd : d ∉ td) {text : List Char} (h : d ∉ text) : d ∉ quoted td text := by
  simp [quoted, hd, h]

variable (hd : d ∉ td) (htd : td ≠ [])

include hd htd

theorem readText_of_not_mem {text : List Char} (hmem : d ∉ text) (texts : List (List Char)) :
    readText d td (delimitedTokens d td (text :: texts)) =
      .ok (some text, delimitedTokens d td texts) := by
  have hquoted := not_mem_quoted hd hmem
  have hne : quoted td text ≠ [] := by simp [quoted, htd]
  have htoken : quoted td text ≠ [d] := fun h => hquoted (h ▸ List.mem_cons_self)
  have hlen : (quoted td text).length ≠ 1 := by
    have hpos := List.length_pos_iff.mpr htd
    simp only [quoted, List.length_append]
    omega
  have htokens : Text.tokensDelims d (quoted td text) = [quoted td text] := by
    rw [Text.tokensDelims_of_not_mem hquoted, if_neg hne]
  have hstop : ¬ (td <+: quoted td text ∧
      (¬ td <:+ quoted td text ∨ (quoted td text).length = 1)) := by
    rintro ⟨-, h | h⟩
    · exact h (List.suffix_append _ _)
    · exact hlen h
  have htail : ∃ st, delimitedTokens d td (text :: texts) = quoted td text :: st ∧
      st.tail = delimitedTokens d td texts := by
    rcases eq_or_ne texts [] with rfl | hsome
    · exact ⟨[], htokens, rfl⟩
    · exact ⟨[d] :: delimitedTokens d td texts, by
        rw [delimitedTokens_cons text hsome, htokens]; rfl, rfl⟩
  obtain ⟨st, htokens, hst⟩ := htail
  rw [htokens, readText_of_token htoken, hst]
  exact unquote_eq (if_neg hstop)

theorem delimitedTokens_piece {piece rest : List Char} (hpiece : d ∉ piece)
    (texts : List (List Char)) :
    delimitedTokens d td ((piece ++ d :: rest) :: texts) =
      (td ++ piece) :: [d] :: (Text.tokensDelims d (rest ++ td) ++
        if texts = [] then [] else [d] :: delimitedTokens d td texts) := by
  have hpiece' : d ∉ td ++ piece := by simp [hd, hpiece]
  have hne : td ++ piece ≠ [] := by simp [htd]
  have hquoted : Text.tokensDelims d (quoted td (piece ++ d :: rest)) =
      (td ++ piece) :: [d] :: Text.tokensDelims d (rest ++ td) := by
    have hcut : quoted td (piece ++ d :: rest) = (td ++ piece) ++ d :: (rest ++ td) := by
      simp [quoted]
    rw [hcut, Text.tokensDelims_append, Text.tokensDelims_of_not_mem hpiece', if_neg hne]
    rfl
  split_ifs with hnil
  · rw [hnil, delimitedTokens, hquoted, List.append_nil]
  · rw [delimitedTokens_cons _ hnil, hquoted]
    rfl

omit hd in
theorem joins_iff {piece : List Char} (hwithin : ¬ td <:+: piece) :
    (¬ td <:+ td ++ piece ∨ (td ++ piece).length = 1) ↔
      (td.length = 1 ∨ ¬ td <:+ td ++ piece) := by
  have hpos := List.length_pos_iff.mpr htd
  rw [List.length_append]
  constructor
  · rintro (h | h)
    · exact .inr h
    · exact .inl (by omega)
  · rintro (hone | h)
    · -- a text delimiter of one character cannot end a piece that is not empty
      by_cases hsuffix : td <:+ td ++ piece
      · rcases List.suffix_or_suffix_of_suffix hsuffix (List.suffix_append td piece) with h | h
        · exact absurd h.isInfix hwithin
        · have hle := h.length_le
          have hnot : piece.length ≠ td.length := fun heq =>
            hwithin ((h.eq_of_length heq) ▸ List.infix_refl _)
          exact .inr (by omega)
      · exact .inl hsuffix
    · exact .inl h

/-- **One text**: it is read exactly if it is readable. -/
theorem readText_eq {text : List Char} (h : ¬ td <:+: text) (texts : List (List Char)) :
    (Readable d td text texts ∧ readText d td (delimitedTokens d td (text :: texts)) =
        .ok (some text, delimitedTokens d td texts)) ∨
      (¬ Readable d td text texts ∧
        ∃ e, readText d td (delimitedTokens d td (text :: texts)) = .error e) := by
  by_cases hmem : d ∈ text
  · obtain ⟨piece, rest, rfl, hpiece⟩ := List.eq_append_cons_of_mem hmem
    have hnone : ¬ td <:+: piece := fun hwithin =>
      h (hwithin.trans (List.prefix_append piece _).isInfix)
    have hrest : ¬ td <:+: rest := fun hwithin =>
      h (hwithin.trans ((List.suffix_cons d rest).trans (List.suffix_append piece _)).isInfix)
    have htoken : td ++ piece ≠ [d] := fun heq => by
      have hmem : d ∈ td ++ piece := heq ▸ List.mem_cons_self
      simp [hd, hpiece] at hmem
    have htake : (piece ++ d :: rest).takeWhile (· != d) = piece := by
      rw [List.takeWhile_append_of_pos, List.takeWhile_cons_of_neg (by simp), List.append_nil]
      intro c hc
      have hne : c ≠ d := fun heq => hpiece (heq ▸ hc)
      simpa using hne
    have hreadable : Readable d td (piece ++ d :: rest) texts ↔
        texts ≠ [] ∧ (td.length = 1 ∨ ¬ td <:+ td ++ piece) := by
      rw [Readable, htake]
      exact ⟨fun h => h hmem, fun h _ => h⟩
    rw [hreadable, ← joins_iff htd hnone, delimitedTokens_piece hd htd hpiece,
      readText_of_token htoken, List.tail_cons]
    by_cases hjoins : ¬ td <:+ td ++ piece ∨ (td ++ piece).length = 1
    · have hjoin := joinTokens_quoted hd htd (td ++ piece) hrest
        (if texts = [] then [] else [d] :: delimitedTokens d td texts)
      have hguard : td <+: td ++ piece ∧
          (¬ td <:+ td ++ piece ∨ (td ++ piece).length = 1) := ⟨List.prefix_append _ _, hjoins⟩
      rcases eq_or_ne texts [] with rfl | hsome
      · refine .inr ⟨fun h => h.1 rfl, .noSuchElement, ?_⟩
        rw [unquote, joinText, if_pos hguard, hjoin]
        rfl
      · refine .inl ⟨⟨hsome, hjoins⟩, unquote_eq ?_⟩
        rw [joinText, if_pos hguard, hjoin, if_neg hsome]
        simp [quoted, bind, Except.bind, pure, Except.pure]
    · refine .inr ⟨fun h => hjoins h.2, .indexOutOfBounds, ?_⟩
      rw [unquote, joinText, if_neg fun h => hjoins h.2]
      have hlooks : td <:+ td ++ piece := by
        by_contra hlooks
        exact hjoins (.inl hlooks)
      simp [stripText_piece hnone hlooks, bind, Except.bind, pure, Except.pure]
  · exact .inl ⟨fun h => absurd h hmem, readText_of_not_mem hd htd hmem texts⟩

end Read

/-! ### Reading the fields -/

/-- What `setString` makes of a text is the value of the field: a blank text is none. -/
def Holds (objects : Objects V) (record : Record V) (f : ModelField V)
    (text : Option (List Char)) : Prop :=
  match text with
  | none => record.fields f.name = none
  | some text =>
    if text.all (· == ' ') then record.fields f.name = none
    else ∃ v, f.type.parse objects text = .ok v ∧ record.fields f.name = some v

namespace Record

/-- The record with the named fields alone, as it is while the others are still to be read. -/
def restrict (record : Record V) (names : List Name) : Record V :=
  ⟨record.modelRecord, fun n => if names.contains n then record.fields n else none⟩

section Restrict

variable {record : Record V} {names : List Name} {n : Name}

theorem fields_restrict_of_not_mem (h : n ∉ names) : (record.restrict names).fields n = none := by
  simp [restrict, h]

theorem restrict_cons_of_none (h : record.fields n = none) :
    record.restrict (n :: names) = record.restrict names := by
  refine congrArg (Record.mk record.modelRecord) (funext fun m => ?_)
  by_cases hm : m = n
  · subst hm
    simp [h]
  · simp [hm]

theorem restrict_cons_of_some {v : V} (h : record.fields n = some v) :
    record.restrict (n :: names) =
      ⟨record.modelRecord, Function.update (record.restrict names).fields n (some v)⟩ := by
  refine congrArg (Record.mk record.modelRecord) (funext fun m => ?_)
  by_cases hm : m = n
  · subst hm
    simp [h]
  · simp [hm, restrict]

end Restrict

variable (objects : Objects V) (record : Record V)

theorem wrapConversion_eq_ok {α : Type} {x : Except RecordException α} {a : α} :
    wrapConversion x = .ok a ↔ x = .ok a := by
  rcases x with e | b
  · cases e <;> simp [wrapConversion]
  · rfl

theorem setString_restrict {f : ModelField V}
    (hf : record.modelRecord.getModelField f.name = some f) {names : List Name}
    (hnew : f.name ∉ names) (text : Option (List Char)) (r : Record V) :
    ((record.restrict names).setString objects f.name text = .ok r ∧
        r.fields f.name = record.fields f.name) ↔
      Holds objects record f text ∧ r = record.restrict (f.name :: names) := by
  have hnone : (.ok (record.restrict names) : Except RecordException (Record V)) = .ok r ∧
      r.fields f.name = record.fields f.name ↔
        record.fields f.name = none ∧ r = record.restrict (f.name :: names) := by
    rw [Except.ok.injEq]
    constructor
    · rintro ⟨rfl, h⟩
      rw [fields_restrict_of_not_mem hnew] at h
      exact ⟨h.symm, (restrict_cons_of_none h.symm).symm⟩
    · rintro ⟨h, rfl⟩
      rw [restrict_cons_of_none h, fields_restrict_of_not_mem hnew]
      exact ⟨rfl, h.symm⟩
  rcases text with _ | text
  · exact hnone
  rw [setString, Holds]
  by_cases hempty : text = []
  · subst hempty
    simpa using hnone
  rw [if_neg hempty]
  have hmodel : (record.restrict names).modelRecord.getModelField f.name = some f := hf
  by_cases hblank : text.all (· == ' ') = true
  · simp only [hmodel, hblank, if_true]
    exact hnone
  · simp only [hmodel, hblank, if_false, Bool.false_eq_true]
    rw [Except.bind_eq_ok]
    simp only [set, hmodel]
    constructor
    · rintro ⟨⟨v, hv, hr⟩, hvalue⟩
      obtain rfl := Except.ok.inj hr
      replace hvalue : some v = record.fields f.name := by
        simpa only [Function.update_self] using hvalue
      exact ⟨⟨v, hv, hvalue.symm⟩, (restrict_cons_of_some hvalue.symm).symm⟩
    · rintro ⟨⟨v, hv, hvalue⟩, rfl⟩
      rw [restrict_cons_of_some hvalue]
      refine ⟨⟨v, hv, rfl⟩, ?_⟩
      simp only [Function.update_self, hvalue]

/-- The fields of a record are restored from the texts that are left: each field that is no
expression takes the next one. -/
def Restores (delimiter : Char) (textDelimiter : List Char) (names : List Name) :
    List (ModelField V) → List (List Char) → Prop
  | [], _ => True
  | f :: fs, texts =>
    if f.expression then
      (∃ text, (record.restrict names).expressionText objects f = .ok text ∧
        Holds objects record f text) ∧
      Restores delimiter textDelimiter (f.name :: names) fs texts
    else match texts with
      | [] => False
      | text :: texts => Readable delimiter textDelimiter text texts ∧
        Holds objects record f (some text) ∧
        Restores delimiter textDelimiter (f.name :: names) fs texts

/-! ### Reading a record -/

section Fields

variable {objects record} {d : Char} {td : List Char} {f : ModelField V}

theorem unquote_of_not_prefix {text : Option (List Char)} (h : ∀ t, text = some t → ¬ td <+: t)
    (st : List (List Char)) : unquote d (some td) text st = .ok (text, st) := by
  rcases text with _ | t
  · rfl
  · have hnot := h t rfl
    rw [unquote, joinText, if_neg fun h => hnot h.1]
    change (do let strVal ← stripText td t; pure (some strVal, st)) = _
    rw [stripText, if_neg fun h => hnot h.1]
    rfl

theorem setField_iff (hf : record.modelRecord.getModelField f.name = some f) {names : List Name}
    (hnew : f.name ∉ names) (text : Option (List Char)) (st : List (List Char))
    (s : Record V × List (List Char)) :
    ((∃ r, wrapConversion ((record.restrict names).setString objects f.name text) = .ok r ∧
        (r, st) = s) ∧ s.1.fields f.name = record.fields f.name) ↔
      Holds objects record f text ∧ s = (record.restrict (f.name :: names), st) := by
  simp only [wrapConversion_eq_ok]
  constructor
  · rintro ⟨⟨r, hr, rfl⟩, hvalue⟩
    obtain ⟨hholds, rfl⟩ := (setString_restrict objects record hf hnew text r).mp ⟨hr, hvalue⟩
    exact ⟨hholds, rfl⟩
  · rintro ⟨hholds, rfl⟩
    obtain ⟨hr, hvalue⟩ := (setString_restrict objects record hf hnew text _).mpr ⟨hholds, rfl⟩
    exact ⟨⟨_, hr, rfl⟩, hvalue⟩

theorem readField_expression (hf : record.modelRecord.getModelField f.name = some f)
    (hexpr : f.expression = true) {names : List Name} (hnew : f.name ∉ names)
    (hplain : ∀ t, (record.restrict names).expressionText objects f = .ok (some t) → ¬ td <+: t)
    (st : List (List Char)) (s : Record V × List (List Char)) :
    (readField objects d (some td) (record.restrict names, st) f = .ok s ∧
        s.1.fields f.name = record.fields f.name) ↔
      (∃ text, (record.restrict names).expressionText objects f = .ok text ∧
        Holds objects record f text) ∧ s = (record.restrict (f.name :: names), st) := by
  simp only [readField, hexpr, if_true, Except.bind_eq_ok, Except.pure_eq_ok, Prod.exists,
    Prod.mk.injEq]
  have hunquote : ∀ text, (record.restrict names).expressionText objects f = .ok text →
      unquote d (some td) text st = .ok (text, st) := fun text htext =>
    unquote_of_not_prefix (fun t ht => hplain t (ht ▸ htext)) st
  constructor
  · rintro ⟨⟨text, htext, _, _, ⟨rfl, rfl⟩, text', st', hread, hset⟩, hvalue⟩
    rw [hunquote text htext, Except.ok.injEq, Prod.mk.injEq] at hread
    obtain ⟨rfl, rfl⟩ := hread
    obtain ⟨hholds, hs⟩ := (setField_iff hf hnew text st s).mp ⟨hset, hvalue⟩
    exact ⟨⟨text, htext, hholds⟩, hs⟩
  · rintro ⟨⟨text, htext, hholds⟩, hs⟩
    obtain ⟨hset, hvalue⟩ := (setField_iff hf hnew text st s).mpr ⟨hholds, hs⟩
    exact ⟨⟨text, htext, text, st, ⟨rfl, rfl⟩, text, st, hunquote text htext, hset⟩, hvalue⟩

theorem readField_text (hf : record.modelRecord.getModelField f.name = some f)
    (hexpr : f.expression = false) {names : List Name} (hnew : f.name ∉ names)
    (hd : d ∉ td) (htd : td ≠ []) {text : List Char} (h : ¬ td <:+: text)
    (texts : List (List Char)) (s : Record V × List (List Char)) :
    (readField objects d (some td) (record.restrict names, delimitedTokens d td (text :: texts)) f =
        .ok s ∧ s.1.fields f.name = record.fields f.name) ↔
      (Readable d td text texts ∧ Holds objects record f (some text)) ∧
        s = (record.restrict (f.name :: names), delimitedTokens d td texts) := by
  have hfield : readField objects d (some td)
      (record.restrict names, delimitedTokens d td (text :: texts)) f =
        readText d td (delimitedTokens d td (text :: texts)) >>= fun read =>
          wrapConversion ((record.restrict names).setString objects f.name read.1) >>= fun r =>
            pure (r, read.2) := by
    simp only [readField, hexpr, Bool.false_eq_true, if_false, pure_bind, readText]
  rw [hfield]
  rcases readText_eq hd htd h texts with ⟨hreadable, hread⟩ | ⟨hnot, e, hread⟩
  · simp only [hread, Except.bind_eq_ok, Except.pure_eq_ok, Except.ok.injEq, Prod.exists,
      Prod.mk.injEq]
    constructor
    · rintro ⟨⟨_, _, ⟨rfl, rfl⟩, hset⟩, hvalue⟩
      obtain ⟨hholds, hs⟩ := (setField_iff hf hnew (some text) _ s).mp ⟨hset, hvalue⟩
      exact ⟨⟨hreadable, hholds⟩, hs⟩
    · rintro ⟨⟨-, hholds⟩, hs⟩
      obtain ⟨hset, hvalue⟩ := (setField_iff hf hnew (some text) _ s).mpr ⟨hholds, hs⟩
      exact ⟨⟨some text, _, ⟨rfl, rfl⟩, hset⟩, hvalue⟩
  · rw [hread]
    constructor
    · rintro ⟨h, -⟩
      cases h
    · rintro ⟨⟨hreadable, -⟩, -⟩
      exact absurd hreadable hnot

theorem setString_cases {r r' : Record V} {name : Name} {text : Option (List Char)}
    (h : r.setString objects name text = .ok r') :
    r' = r ∨ ∃ v, r' = { r with fields := Function.update r.fields name (some v) } := by
  rcases text with _ | text
  · exact .inl (Except.ok.inj h).symm
  rw [setString] at h
  by_cases hempty : text = []
  · rw [if_pos hempty] at h
    exact .inl (Except.ok.inj h).symm
  rw [if_neg hempty] at h
  rcases hmodel : r.modelRecord.getModelField name with _ | field
  · rw [hmodel] at h
    cases h
  simp only [hmodel] at h
  by_cases hblank : text.all (· == ' ') = true
  · rw [if_pos hblank] at h
    exact .inl (Except.ok.inj h).symm
  rw [if_neg hblank] at h
  obtain ⟨v, -, hset⟩ := Except.bind_eq_ok.mp h
  simp only [set, hmodel, Except.ok.injEq] at hset
  exact .inr ⟨v, hset.symm⟩

theorem fields_setString {r r' : Record V} {name n : Name} {text : Option (List Char)}
    (h : r.setString objects name text = .ok r') (hn : n ≠ name) : r'.fields n = r.fields n := by
  rcases setString_cases h with rfl | ⟨v, rfl⟩
  · rfl
  · exact Function.update_of_ne hn _ _

theorem exists_setString_of_readField {textDelimiter : Option (List Char)}
    {s s' : Record V × List (List Char)} (h : readField objects d textDelimiter s f = .ok s') :
    ∃ text, s.1.setString objects f.name text = .ok s'.1 := by
  cases hexpr : f.expression with
  | true =>
    simp only [readField, hexpr, if_true, Except.bind_eq_ok, Except.pure_eq_ok] at h
    obtain ⟨-, -, -, -, ⟨text, st'⟩, -, r', hset, rfl⟩ := h
    exact ⟨text, wrapConversion_eq_ok.mp hset⟩
  | false =>
    simp only [readField, hexpr, Bool.false_eq_true, if_false, Except.bind_eq_ok,
      Except.pure_eq_ok] at h
    obtain ⟨-, -, ⟨text, st'⟩, -, r', hset, rfl⟩ := h
    exact ⟨text, wrapConversion_eq_ok.mp hset⟩

theorem fields_readFields {textDelimiter : Option (List Char)} {fs : List (ModelField V)}
    {s s' : Record V × List (List Char)}
    (h : fs.foldlM (readField objects d textDelimiter) s = .ok s') {n : Name}
    (hn : ∀ f ∈ fs, n ≠ f.name) : s'.1.fields n = s.1.fields n := by
  refine Except.of_foldlM_eq_ok (P := fun t => t.1.fields n = s.1.fields n)
    (fun t f t' hf ht hround => ?_) rfl h
  obtain ⟨text, hset⟩ := exists_setString_of_readField hround
  exact (fields_setString hset (hn f hf)).trans ht

/-- **The loop restores the values of the fields** exactly if their texts do. -/
theorem readFields_iff (hd : d ∉ td) (htd : td ≠ []) {fs : List (ModelField V)}
    (hmodel : ∀ f ∈ fs, record.modelRecord.getModelField f.name = some f)
    (hnodup : (fs.map ModelField.name).Nodup) {names : List Name}
    (hnew : ∀ f ∈ fs, f.name ∉ names)
    (hplain : ∀ f ∈ fs, f.expression = true → ∀ names t,
      (record.restrict names).expressionText objects f = .ok (some t) → ¬ td <+: t)
    {texts : List (List Char)} (htexts : ∀ text ∈ texts, ¬ td <:+: text)
    (hlength : (fs.filter fun f => !f.expression).length ≤ texts.length) :
    (∃ s, fs.foldlM (readField objects d (some td))
        (record.restrict names, delimitedTokens d td texts) = .ok s ∧
        ∀ f ∈ fs, s.1.fields f.name = record.fields f.name) ↔
      record.Restores objects d td names fs texts := by
  induction fs generalizing names texts with
  | nil => simp [Restores, pure, Except.pure]
  | cons f fs ih =>
    rw [List.map_cons, List.nodup_cons] at hnodup
    have hmem := List.mem_cons_self (a := f) (l := fs)
    have hnew' : ∀ g ∈ fs, g.name ∉ f.name :: names := fun g hg => by
      rw [List.mem_cons, not_or]
      refine ⟨fun h => hnodup.1 (h ▸ List.mem_map_of_mem hg), hnew g (List.mem_cons_of_mem _ hg)⟩
    have hrest : ∀ texts : List (List Char), (∀ text ∈ texts, ¬ td <:+: text) →
        (fs.filter fun f => !f.expression).length ≤ texts.length → _ := fun _ => ih
      (fun g hg => hmodel g (List.mem_cons_of_mem _ hg)) hnodup.2 hnew'
      (fun g hg => hplain g (List.mem_cons_of_mem _ hg))
    -- what the first round leaves at its field stays there
    have hsplit : ∀ st, (∃ s, (f :: fs).foldlM (readField objects d (some td))
        (record.restrict names, st) = .ok s ∧
        ∀ g ∈ f :: fs, s.1.fields g.name = record.fields g.name) ↔
      ∃ s₁, (readField objects d (some td) (record.restrict names, st) f = .ok s₁ ∧
        s₁.1.fields f.name = record.fields f.name) ∧
        ∃ s, fs.foldlM (readField objects d (some td)) s₁ = .ok s ∧
          ∀ g ∈ fs, s.1.fields g.name = record.fields g.name := by
      intro st
      have hframe : ∀ {s₁ s}, fs.foldlM (readField objects d (some td)) s₁ = .ok s →
          s.1.fields f.name = s₁.1.fields f.name := fun h => fields_readFields h fun g hg heq =>
        hnodup.1 (heq ▸ List.mem_map_of_mem hg)
      simp only [List.foldlM_cons, Except.bind_eq_ok, List.forall_mem_cons]
      constructor
      · rintro ⟨s, ⟨s₁, hs₁, hs⟩, hvalue, hvalues⟩
        exact ⟨s₁, ⟨hs₁, (hframe hs).symm.trans hvalue⟩, s, hs, hvalues⟩
      · rintro ⟨s₁, ⟨hs₁, hvalue⟩, s, hs, hvalues⟩
        exact ⟨s, ⟨s₁, hs₁, hs⟩, (hframe hs).trans hvalue, hvalues⟩
    rw [hsplit]
    by_cases hexpr : f.expression = true
    · have hround := readField_expression (d := d) (hmodel f hmem) hexpr (hnew f hmem)
        (hplain f hmem hexpr names) (delimitedTokens d td texts)
      have hlength' : (fs.filter fun f => !f.expression).length ≤ texts.length := by
        simpa [List.filter_cons, hexpr] using hlength
      simp only [hround, Restores, hexpr, if_true, ← hrest texts htexts hlength']
      constructor
      · rintro ⟨_, ⟨hholds, rfl⟩, h⟩
        exact ⟨hholds, h⟩
      · rintro ⟨hholds, h⟩
        exact ⟨_, ⟨hholds, rfl⟩, h⟩
    · rw [Bool.not_eq_true] at hexpr
      rcases texts with _ | ⟨text, texts⟩
      · simp [hexpr] at hlength
      · have hround : ∀ s, _ ↔ (Readable d td text texts ∧ Holds objects record f (some text)) ∧ s =
            _ := readField_text (hmodel f hmem) hexpr (hnew f hmem) hd htd
          (htexts text List.mem_cons_self) texts
        have hlength' : (fs.filter fun f => !f.expression).length ≤ texts.length := by
          simpa [List.filter_cons, hexpr] using hlength
        simp only [hround, Restores, hexpr, Bool.false_eq_true, if_false,
          ← hrest texts (fun t ht => htexts t (List.mem_cons_of_mem _ ht)) hlength']
        constructor
        · rintro ⟨_, ⟨⟨hreadable, hholds⟩, rfl⟩, h⟩
          exact ⟨hreadable, hholds, h⟩
        · rintro ⟨hreadable, hholds, h⟩
          exact ⟨_, ⟨⟨hreadable, hholds⟩, rfl⟩, h⟩

end Fields

/-! ### Writing a record -/

section Write

variable {objects record} {modelDataFile : ModelDataFile V} {td : List Char}

def fieldTexts (objects : Objects V) (record : Record V) :
    Except RecordException (List (List Char)) :=
  record.modelRecord.fields.mapM (record.fieldText objects)

theorem foldlM_writeField (hstyle : modelDataFile.separatorStyle = .delimited)
    (htd : modelDataFile.textDelimiter = some td) {fs : List (ModelField V)}
    {lineBuf line : List Char} :
    fs.foldlM (writeField objects modelDataFile record) lineBuf = .ok line ↔
      ∃ texts, fs.mapM (record.fieldText objects) = .ok texts ∧
        line = lineBuf ++
          texts.flatMap fun text => quoted td text ++ [modelDataFile.delimiter] := by
  induction fs generalizing lineBuf with
  | nil => simp [pure, Except.pure, eq_comm]
  | cons f fs ih =>
    simp only [List.foldlM_cons, List.mapM_cons, Except.bind_eq_ok, Except.pure_eq_ok, ih,
      writeField, hstyle, htd, Option.getD_some]
    constructor
    · rintro ⟨_, ⟨text, htext, rfl⟩, texts, htexts, rfl⟩
      exact ⟨text :: texts, ⟨text, htext, texts, htexts, rfl⟩, by simp [quoted]⟩
    · rintro ⟨_, ⟨text, htext, texts, htexts, rfl⟩, rfl⟩
      exact ⟨_, ⟨text, htext, rfl⟩, texts, htexts, by simp [quoted]⟩

theorem fieldsLine_delimited (hstyle : modelDataFile.separatorStyle = .delimited)
    (htd : modelDataFile.textDelimiter = some td) {line : List Char} :
    record.fieldsLine objects modelDataFile = .ok line ↔
      ∃ texts, record.fieldTexts objects = .ok texts ∧ texts ≠ [] ∧
        line = delimitedLine modelDataFile.delimiter td texts := by
  rw [fieldsLine, Except.bind_eq_ok]
  simp only [foldlM_writeField hstyle htd, hstyle, List.nil_append, fieldTexts]
  constructor
  · rintro ⟨_, ⟨texts, htexts, rfl⟩, hline⟩
    rcases eq_or_ne texts [] with rfl | hne
    · cases hline
    · rw [if_neg (flatMap_quoted_ne_nil hne), dropLast_flatMap hne] at hline
      exact ⟨texts, htexts, hne, (Except.pure_eq_ok.mp hline).symm⟩
  · rintro ⟨texts, htexts, hne, rfl⟩
    refine ⟨_, ⟨texts, htexts, rfl⟩, ?_⟩
    rw [if_neg (flatMap_quoted_ne_nil hne), dropLast_flatMap hne]
    rfl

end Write

/-! ### The round trip -/

/-- A model whose lines can be read: the text delimiter has no delimiter in it, and neither ends a
line; a name is one of a field; a line ends with a line break; the type code that is inserted is in
the line already; and no default value of an expression looks like a quoted text. -/
structure IsProper (objects : Objects V) (modelDataFile : ModelDataFile V) (td : List Char)
    (record : Record V) : Prop where
  td_ne : td ≠ []
  delimiter_not_mem : modelDataFile.delimiter ∉ td
  no_break : ∀ c ∈ modelDataFile.delimiter :: td, isLineBreak c = false
  names_nodup : (record.modelRecord.fields.map ModelField.name).Nodup
  eolType_ne : modelDataFile.eolType ≠ some "CRLF".toList
  typeCode : ∀ line, record.fieldsLine objects modelDataFile = .ok line →
    insertTypeCode record.modelRecord line = .ok line
  default_plain : ∀ f ∈ record.modelRecord.fields, f.expression = true → ∀ text,
    f.defaultValue = some text → ¬ td <+: text

/-- No value of a field, and no text that is written for one, has a text delimiter or a line
break. -/
structure Avoids (objects : Objects V) (td : List Char) (record : Record V) : Prop where
  value : ∀ f ∈ record.modelRecord.fields, ∀ v, record.fields f.name = some v →
    ¬ td <:+: objects.toString v
  text : ∀ f ∈ record.modelRecord.fields, ∀ text, record.fieldText objects f = .ok text →
    ¬ td <:+: text ∧ ∀ c ∈ text, isLineBreak c = false

def IsRestored (objects : Objects V) (delimiter : Char) (td : List Char) (record : Record V) :
    Prop :=
  ∃ texts, record.fieldTexts objects = .ok texts ∧
    record.Restores objects delimiter td [] record.modelRecord.fields texts

section RoundTrip

variable {objects record} {modelDataFile : ModelDataFile V} {td : List Char}

theorem getModelField_of_nodup {modelRecord : ModelRecord V}
    (h : (modelRecord.fields.map ModelField.name).Nodup) {f : ModelField V}
    (hf : f ∈ modelRecord.fields) : modelRecord.getModelField f.name = some f := by
  unfold ModelRecord.getModelField
  revert h hf
  induction modelRecord.fields with
  | nil => simp
  | cons g fs ih =>
    rw [List.map_cons, List.nodup_cons, List.mem_cons, List.find?_cons]
    rintro ⟨hnot, hnodup⟩ (rfl | hf)
    · simp
    · have hne : g.name ≠ f.name := fun heq => hnot (heq ▸ List.mem_map_of_mem hf)
      simpa [hne] using ih hnodup hf

theorem expressionText_plain (hproper : IsProper objects modelDataFile td record)
    (havoids : Avoids objects td record) {f : ModelField V}
    (hf : f ∈ record.modelRecord.fields) (hexpr : f.expression = true) {names : List Name}
    {text : List Char}
    (h : (record.restrict names).expressionText objects f = .ok (some text)) : ¬ td <+: text := by
  have hdefault := hproper.default_plain f hf hexpr text
  rcases hrefField : f.refField with _ | refField
  · simp only [expressionText, hrefField, pure_bind, Option.none_or, Except.pure_eq_ok] at h
    exact hdefault h
  by_cases hempty : refField = []
  · simp only [expressionText, hrefField, if_pos hempty, pure_bind, Option.none_or,
      Except.pure_eq_ok] at h
    exact hdefault h
  simp only [expressionText, hrefField, if_neg hempty, Except.bind_eq_ok, Except.pure_eq_ok] at h
  obtain ⟨ref, href, htext⟩ := h
  rcases ref with _ | t
  · exact hdefault (by simpa using htext)
  -- the referenced field has been read
  obtain rfl : t = text := by simpa using htext
  rw [getString, Except.map_eq_ok] at href
  obtain ⟨v?, hget, hstring⟩ := href
  obtain ⟨v, rfl, rfl⟩ := Option.map_eq_some_iff.mp hstring
  unfold get at hget
  rcases hmodel : (record.restrict names).modelRecord.getModelField refField with _ | g
  · rw [hmodel] at hget
    cases hget
  simp only [hmodel, Except.ok.injEq] at hget
  have hname : g.name = refField := by simpa using List.find?_some hmodel
  have hg : g ∈ record.modelRecord.fields := List.mem_of_find?_eq_some hmodel
  have hvalue : record.fields g.name = some v := by
    rw [hname]
    unfold restrict at hget
    dsimp only at hget
    split_ifs at hget
    exact hget
  exact fun hbegins => havoids.value g hg v hvalue hbegins.isInfix

end RoundTrip

/-! ### A last field with the delimiter -/

def nameField : ModelField (List Char) := ⟨"name".toList, -1, -1, .string, none, false, none⟩

def cityField : ModelField (List Char) := ⟨"city".toList, -1, -1, .string, none, false, none⟩

def customerRecord : ModelRecord (List Char) :=
  ⟨"customer".toList, [], [], -1, [], -1, true, -1, -1, [], [nameField, cityField]⟩

def customerFile : ModelDataFile (List Char) :=
  ⟨-1, 0, ',', some ['"'], .delimited, none, [customerRecord]⟩

def strings : Objects (List Char) := ⟨id, id, fun _ => rfl⟩

def customer (name city : List Char) : Record (List Char) :=
  ⟨customerRecord, fun n =>
    if n = nameField.name then some name else if n = cityField.name then some city else none⟩

theorem mem_fields_customer {name city : List Char} {f : ModelField (List Char)}
    (h : f ∈ (customer name city).modelRecord.fields) : f = nameField ∨ f = cityField := by
  change f ∈ [nameField, cityField] at h
  rwa [List.mem_pair] at h

theorem isProper_customer (name city : List Char) :
    IsProper strings customerFile ['"'] (customer name city) where
  td_ne := by decide
  delimiter_not_mem := by decide
  no_break := by
    intro c hc
    obtain rfl | rfl : c = ',' ∨ c = '"' := List.mem_pair.mp hc
    · rfl
    · rfl
  names_nodup := by
    have hne : nameField.name ≠ cityField.name := by decide
    exact List.nodup_cons.mpr ⟨by simpa using hne, List.pairwise_singleton _ _⟩
  eolType_ne := by decide
  typeCode := fun _ _ => rfl
  default_plain := by
    intro f hf hexpr
    rcases mem_fields_customer hf with rfl | rfl
    · cases hexpr
    · cases hexpr

def isPlain (c : Char) : Bool := c != '"' && !isLineBreak c

theorem avoids_of_isPlain {s : List Char} (h : s.all isPlain = true) :
    ¬ ['"'] <:+: s ∧ ∀ c ∈ s, isLineBreak c = false := by
  have hplain : ∀ c ∈ s, c ≠ '"' ∧ isLineBreak c = false := by
    simpa [isPlain] using h
  refine ⟨fun hwithin => ?_, fun c hc => (hplain c hc).2⟩
  exact (hplain '"' (hwithin.subset List.mem_cons_self)).1 rfl

theorem avoids_customer {name city : List Char} (hname : name.all isPlain = true)
    (hcity : city.all isPlain = true) : Avoids strings ['"'] (customer name city) := by
  have htext : ∀ s : List Char, padSpaces s (-1) = s := by
    intro s
    have hnone : ((-1 : ℤ) - s.length).toNat = 0 := by omega
    simp [padSpaces, hnone]
  constructor
  · intro f hf v hv
    rcases mem_fields_customer hf with rfl | rfl
    · obtain rfl : name = v := Option.some.inj hv
      exact (avoids_of_isPlain hname).1
    · obtain rfl : city = v := Option.some.inj hv
      exact (avoids_of_isPlain hcity).1
  · intro f hf text h
    rcases mem_fields_customer hf with rfl | rfl
    · obtain rfl : padSpaces name (-1) = text := Except.ok.inj h
      rw [htext]
      exact avoids_of_isPlain hname
    · obtain rfl : padSpaces city (-1) = text := Except.ok.inj h
      rw [htext]
      exact avoids_of_isPlain hcity

end Record

end OfficeAuto.Datafile
