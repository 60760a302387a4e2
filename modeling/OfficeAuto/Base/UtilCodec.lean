import OfficeAuto.Text.Search
import Mathlib.Data.List.Infix

/-!
# The check of a text for HTML

`canonicalize` decodes a text with two codecs until neither changes it, and counts how often and
with which of them it was encoded. `checkStringForHtmlStrictNone` rejects a text that was encoded
more than once, that has a `<` or a `>` in its canonical form, or an event attribute of a script.

For the events it looks at one place only: after the first blank that is followed by `on`, up to the
next equals sign. An event attribute behind another such place is passed over, and so is one after
a tab or in capitals. `htmlStrictNoneRight_iff` says which texts are checked rightly.

The codecs belong to a library; all that is known of a decoder is that it shortens what it changes,
since it puts one character for a sequence that stands for it.
-/

namespace OfficeAuto.Base.UtilCodec

/-! ### Canonical texts -/

inductive Codec
  | htmlEntityCodec
  | percentCodec
  deriving DecidableEq

def codecs : List Codec := [.htmlEntityCodec, .percentCodec]

/-- The decoders of the codecs. -/
structure Decoders where
  decode : Codec → List Char → List Char
  shortens : ∀ codec s, decode codec s ≠ s → (decode codec s).length < s.length

/-- What `canonicalize` keeps track of. -/
structure Working where
  working : List Char
  codecFound : Option Codec
  mixedCount : ℕ
  foundCount : ℕ
  clean : Bool

variable (d : Decoders)

def tryCodec (w : Working) (codec : Codec) : Working :=
  let working := d.decode codec w.working
  if working ≠ w.working then
    { working := working
      codecFound := some codec
      mixedCount :=
        if w.codecFound.isSome ∧ w.codecFound ≠ some codec then w.mixedCount + 1
        else w.mixedCount
      foundCount := if w.clean then w.foundCount + 1 else w.foundCount
      clean := false }
  else w

def tryCodecs (w : Working) : Working := codecs.foldl (tryCodec d) { w with clean := true }

variable {d}

theorem tryCodec_cases (w : Working) (codec : Codec) :
    (tryCodec d w codec = w ∧ d.decode codec w.working = w.working) ∨
      (tryCodec d w codec).clean = false ∧
        (tryCodec d w codec).working.length < w.working.length := by
  rw [tryCodec]
  by_cases h : d.decode codec w.working = w.working
  · exact .inl ⟨if_neg (not_not_intro h), h⟩
  · rw [if_pos h]
    exact .inr ⟨rfl, d.shortens codec w.working h⟩

theorem length_tryCodec_le (w : Working) (codec : Codec) :
    (tryCodec d w codec).working.length ≤ w.working.length := by
  rcases tryCodec_cases (d := d) w codec with ⟨h, -⟩ | ⟨-, h⟩
  · rw [h]
  · exact h.le

theorem length_tryCodecs_lt {w : Working} (h : (tryCodecs d w).clean = false) :
    (tryCodecs d w).working.length < w.working.length := by
  rw [tryCodecs, codecs, List.foldl_cons, List.foldl_cons, List.foldl_nil] at h ⊢
  rcases tryCodec_cases (d := d) { w with clean := true } .htmlEntityCodec with
    ⟨heq, -⟩ | ⟨-, hlt⟩
  · rw [heq] at h ⊢
    rcases tryCodec_cases (d := d) { w with clean := true } .percentCodec with ⟨heq, -⟩ | ⟨-, hlt⟩
    · rw [heq] at h
      cases h
    · exact hlt
  · exact (length_tryCodec_le _ _).trans_lt hlt

variable (d)

def decodeAll (w : Working) : Working :=
  if _ : (tryCodecs d w).clean = false then decodeAll (tryCodecs d w) else tryCodecs d w
termination_by w.working.length
decreasing_by exact length_tryCodecs_lt ‹_›

def intrusion : List Char := "Input validation failure".toList

/-- **`canonicalize`** of a text. -/
def canonicalize (input : List Char) (restrictMultiple restrictMixed : Bool) :
    Except (List Char) (List Char) :=
  let w := decodeAll d ⟨input, none, 1, 0, false⟩
  if 2 ≤ w.foundCount ∧ 1 < w.mixedCount then
    if restrictMultiple || restrictMixed then .error intrusion else .ok w.working
  else if 2 ≤ w.foundCount then
    if restrictMultiple then .error intrusion else .ok w.working
  else if 1 < w.mixedCount then
    if restrictMixed then .error intrusion else .ok w.working
  else .ok w.working

/-! ### The check -/

def jsEventList : List (List Char) :=
  ["onAbort", "onActivate",
    "onAfterPrint", "onAfterUpdate", "onBeforeActivate", "onBeforeCopy", "onBeforeCut",
    "onBeforeDeactivate", "onBeforeEditFocus", "onBeforePaste", "onBeforePrint", "onBeforeUnload",
    "onBeforeUpdate", "onBegin", "onBlur", "onBounce", "onCellChange", "onChange", "onClick",
    "onContextMenu", "onControlSelect", "onCopy", "onCut", "onDataAvailable", "onDataSetChanged",
    "onDataSetComplete", "onDblClick", "onDeactivate", "onDrag", "onDragEnd", "onDragLeave",
    "onDragEnter", "onDragOver", "onDragDrop", "onDragStart", "onDrop", "onEnd", "onError",
    "onErrorUpdate", "onFilterChange", "onFinish", "onFocus", "onFocusIn", "onFocusOut",
    "onHashChange", "onHelp", "onInput", "onKeyDown", "onKeyPress", "onKeyUp", "onLayoutComplete",
    "onLoad", "onLoseCapture", "onMediaComplete", "onMediaError", "onMessage", "onMouseDown",
    "onMouseEnter", "onMouseLeave", "onMouseMove", "onMouseOut", "onMouseOver", "onMouseUp",
    "onMouseWheel", "onMove", "onMoveEnd", "onMoveStart", "onOffline", "onOnline", "onOutOfSync",
    "onPaste", "onPause", "onPopState", "onProgress", "onPropertyChange", "onReadyStateChange",
    "onRedo", "onRepeat", "onReset", "onResize", "onResizeEnd", "onResizeStart", "onResume",
    "onReverse", "onRowsEnter", "onRowExit", "onRowDelete", "onRowInserted", "onScroll", "onSeek",
    "onSelect", "onSelectionChange", "onSelectStart", "onStart", "onStop", "onStorage",
    "onSyncRestored", "onSubmit", "onTimeError", "onTrackChange", "onUndo", "onUnload",
    "onURLFlip", "seekSegmentTime"].map String.toList

/-- `Character.toLowerCase` of `Character.toUpperCase`, for the characters that this takes to a
letter of ASCII. -/
def foldCase (c : Char) : Char :=
  if c = 'ı' ∨ c = 'İ' then 'i'
  else if c = 'ſ' then 's'
  else if c = 'K' then 'k'
  else c.toLower

/-- `StringUtils.containsIgnoreCase` -/
def containsIgnoreCase (str searchStr : List Char) : Bool :=
  (str.map foldCase).tails.any ((searchStr.map foldCase).isPrefixOf ·)

/-- `StringUtils.substringBetween` -/
def substringBetween (str start stop : List Char) : Option (List Char) :=
  (Text.find start str).bind fun i =>
    (Text.find stop (str.drop (i + start.length))).map (str.drop (i + start.length)).take

/-- What is wrong with a text. -/
inductive Issue
  | mixedOrDouble
  | lessThanGreaterThan
  | jsEvents

namespace Issue

def label : Issue → List Char
  | mixedOrDouble => "PolicyNoneMixedOrDouble".toList
  | lessThanGreaterThan => "PolicyNoneLess-thanGreater-than".toList
  | jsEvents => "PolicyNoneJsEvents".toList

def testText (valueName : List Char) : Issue → List Char
  | mixedOrDouble => "In field [".toList ++ valueName ++
      ("] found character escaping (mixed or double) that is not allowed or other format " ++
        "consistency error: ").toList
  | lessThanGreaterThan => "In field [".toList ++ valueName ++
      "] less-than (<) and greater-than (>) symbols are not allowed.".toList
  | jsEvents => "In field [".toList ++ valueName ++ "] Javascript events are not allowed.".toList

/-- The message in a locale: the text of a label for the name of the value. -/
def issueMsg (getMessage : Option (List Char → List Char → List Char)) (valueName : List Char)
    (issue : Issue) : List Char :=
  match getMessage with
  | none => issue.testText valueName
  | some getMessage => getMessage issue.label valueName

end Issue

/-- `IntrusionException.toString` -/
def intrusionText (message : List Char) : List Char :=
  "org.apache.ofbiz.base.util.UtilCodec$IntrusionException: ".toList ++ message

/-- What stands after the first blank with `on`, up to the next equals sign. -/
def onEvent (value : List Char) : List Char :=
  "on".toList ++ (substringBetween value " on".toList "=".toList).getD "null".toList

def hasJsEvent (value : List Char) : Bool :=
  (jsEventList.any fun str => containsIgnoreCase str (onEvent value)) ||
    value.tails.any ("seekSegmentTime".toList.isPrefixOf ·)

/-- **`checkStringForHtmlStrictNone`**: the value that is returned and the errors. -/
def checkStringForHtmlStrictNone (getMessage : Option (List Char → List Char → List Char))
    (valueName : List Char) : Option (List Char) → Option (List Char) × List (List Char)
  | none => (none, [])
  | some [] => (some [], [])
  | some value =>
    let canonical := canonicalize d value true true
    let checked := match canonical with
      | .ok working => working
      | .error _ => value
    (some checked,
      (match canonical with
        | .ok _ => []
        | .error e => [Issue.mixedOrDouble.issueMsg getMessage valueName ++ intrusionText e]) ++
      (if '<' ∈ checked ∨ '>' ∈ checked then
        [Issue.lessThanGreaterThan.issueMsg getMessage valueName]
      else []) ++
      if hasJsEvent checked then [Issue.jsEvents.issueMsg getMessage valueName] else [])

/-! ### Texts that are checked rightly -/

/-- The white space, a name in any letter case, and the equals sign of an event attribute. -/
def HasEventAttribute (t : List Char) : Prop :=
  ∃ pre space name post, t = pre ++ space :: (name ++ '=' :: post) ∧ space.isWhitespace = true ∧
    ∃ event ∈ jsEventList, name.map foldCase = event.map foldCase

def IsFixed (t : List Char) : Prop := ∀ codec, d.decode codec t = t

/-- **What the check is for**: a text without an error is safe in its canonical form, and the
canonical form is one that neither decoder changes. -/
def HtmlStrictNoneRight (getMessage : Option (List Char → List Char → List Char))
    (valueName : List Char) (value : Option (List Char)) : Prop :=
  ∀ v ∈ value,
    ((checkStringForHtmlStrictNone d getMessage valueName value).2 = [] →
      ∀ t, canonicalize d v false false = .ok t → '<' ∉ t ∧ '>' ∉ t ∧ ¬HasEventAttribute t) ∧
    ∀ restrictMultiple restrictMixed,
      match canonicalize d v restrictMultiple restrictMixed with
      | .error _ => True
      | .ok t => IsFixed d t

def decodeOnce (v : List Char) : List Char :=
  d.decode .percentCodec (d.decode .htmlEntityCodec v)

def SinglyEncoded (v : List Char) : Prop :=
  IsFixed d (decodeOnce d v) ∧
    (d.decode .htmlEntityCodec v = v ∨ decodeOnce d v = d.decode .htmlEntityCodec v)

/-- What stands after the first blank with `on`, up to the next equals sign, is part of the name of
an event. -/
def FirstIsEvent (t : List Char) : Prop :=
  ∃ pre mid post, t = pre ++ " on".toList ++ (mid ++ '=' :: post) ∧
    (∀ i < pre.length, ¬" on".toList <+: t.drop i) ∧ '=' ∉ mid ∧
    ∃ event ∈ jsEventList, ("on".toList ++ mid).map foldCase <:+: event.map foldCase

/-! ### Decoding -/

section Decoding

variable {d}

theorem tryCodecs_eq (w : Working) :
    tryCodecs d w = tryCodec d (tryCodec d { w with clean := true } .htmlEntityCodec)
      .percentCodec := rfl

theorem working_tryCodec (w : Working) (codec : Codec) :
    (tryCodec d w codec).working = d.decode codec w.working := by
  rw [tryCodec]
  by_cases h : d.decode codec w.working = w.working
  · exact (congrArg Working.working (if_neg (not_not_intro h))).trans h.symm
  · exact congrArg Working.working (if_pos h)

theorem working_tryCodecs (w : Working) : (tryCodecs d w).working = decodeOnce d w.working := by
  rw [tryCodecs_eq, working_tryCodec, working_tryCodec, decodeOnce]

theorem tryCodec_of_eq {w : Working} {codec : Codec} (h : d.decode codec w.working = w.working) :
    tryCodec d w codec = w := if_neg (not_not_intro h)

theorem tryCodec_of_ne {w : Working} {codec : Codec} (h : d.decode codec w.working ≠ w.working) :
    tryCodec d w codec =
      { working := d.decode codec w.working
        codecFound := some codec
        mixedCount :=
          if w.codecFound.isSome ∧ w.codecFound ≠ some codec then w.mixedCount + 1
          else w.mixedCount
        foundCount := if w.clean then w.foundCount + 1 else w.foundCount
        clean := false } := if_pos h

theorem isFixed_iff {t : List Char} :
    IsFixed d t ↔ d.decode .htmlEntityCodec t = t ∧ d.decode .percentCodec t = t :=
  ⟨fun h => ⟨h _, h _⟩, fun h codec => by cases codec with
    | htmlEntityCodec => exact h.1
    | percentCodec => exact h.2⟩

theorem decodeOnce_of_isFixed {t : List Char} (h : IsFixed d t) : decodeOnce d t = t := by
  rw [decodeOnce, h, h]

theorem tryCodecs_of_isFixed {w : Working} (h : IsFixed d w.working) :
    tryCodecs d w = { w with clean := true } := by
  rw [tryCodecs_eq, tryCodec_of_eq (w := { w with clean := true }) (h _),
    tryCodec_of_eq (w := { w with clean := true }) (h _)]

theorem tryCodecs_of_not_isFixed {w : Working} (h : ¬IsFixed d w.working) :
    (tryCodecs d w).clean = false ∧ (tryCodecs d w).foundCount = w.foundCount + 1 ∧
      w.mixedCount ≤ (tryCodecs d w).mixedCount := by
  rw [tryCodecs_eq]
  by_cases hhtml : d.decode .htmlEntityCodec w.working = w.working
  · have hpercent : d.decode .percentCodec w.working ≠ w.working := fun hpercent =>
      h (isFixed_iff.mpr ⟨hhtml, hpercent⟩)
    rw [tryCodec_of_eq (w := { w with clean := true }) hhtml,
      tryCodec_of_ne (w := { w with clean := true }) hpercent]
    refine ⟨rfl, rfl, ?_⟩
    dsimp only
    split_ifs
    · exact Nat.le_succ _
    · exact Nat.le_refl _
  · rw [tryCodec_of_ne (w := { w with clean := true }) hhtml]
    by_cases hpercent : d.decode .percentCodec (d.decode .htmlEntityCodec w.working) =
        d.decode .htmlEntityCodec w.working
    · rw [tryCodec_of_eq hpercent]
      refine ⟨rfl, rfl, ?_⟩
      dsimp only
      split_ifs
      · exact Nat.le_succ _
      · exact Nat.le_refl _
    · rw [tryCodec_of_ne hpercent]
      refine ⟨rfl, rfl, ?_⟩
      dsimp only
      split_ifs <;> omega

/-- **What comes out is decoded**, and the counts only grow. -/
theorem decodeAll_spec (w : Working) :
    IsFixed d (decodeAll d w).working ∧ w.foundCount ≤ (decodeAll d w).foundCount ∧
      w.mixedCount ≤ (decodeAll d w).mixedCount := by
  induction w using decodeAll.induct d with
  | case1 w hclean ih =>
    rw [decodeAll, dif_pos hclean]
    have hnot : ¬IsFixed d w.working := fun hfixed => by
      rw [tryCodecs_of_isFixed hfixed] at hclean
      cases hclean
    obtain ⟨-, hfound, hmixed⟩ := tryCodecs_of_not_isFixed hnot
    exact ⟨ih.1, by omega, hmixed.trans ih.2.2⟩
  | case2 w hclean =>
    rw [decodeAll, dif_neg hclean]
    have hfixed : IsFixed d w.working := by
      by_contra hnot
      exact hclean (tryCodecs_of_not_isFixed hnot).1
    rw [tryCodecs_of_isFixed hfixed]
    exact ⟨hfixed, Nat.le_refl _, Nat.le_refl _⟩

theorem decodeAll_of_isFixed {w : Working} (h : IsFixed d w.working) :
    decodeAll d w = { w with clean := true } := by
  rw [decodeAll, tryCodecs_of_isFixed h]
  exact dif_neg fun hclean => Bool.false_ne_true hclean.symm

theorem decodeAll_of_not_isFixed {w : Working} (h : ¬IsFixed d w.working) :
    decodeAll d w = decodeAll d (tryCodecs d w) := by
  rw [decodeAll, dif_pos (tryCodecs_of_not_isFixed h).1]

theorem canonicalize_cases (v : List Char) (restrictMultiple restrictMixed : Bool) :
    canonicalize d v restrictMultiple restrictMixed = .error intrusion ∨
      canonicalize d v restrictMultiple restrictMixed =
        .ok (decodeAll d ⟨v, none, 1, 0, false⟩).working := by
  rw [canonicalize]
  split_ifs
  all_goals first | exact .inl rfl | exact .inr rfl

theorem canonicalize_lenient (v : List Char) :
    canonicalize d v false false = .ok (decodeAll d ⟨v, none, 1, 0, false⟩).working := by
  rw [canonicalize]
  split_ifs
  all_goals first | rfl | contradiction

theorem mixedCount_first (v : List Char) :
    (tryCodecs d ⟨v, none, 1, 0, false⟩).mixedCount ≤ 1 ↔
      d.decode .htmlEntityCodec v = v ∨ decodeOnce d v = d.decode .htmlEntityCodec v := by
  rw [tryCodecs_eq, decodeOnce]
  by_cases hhtml : d.decode .htmlEntityCodec v = v
  · rw [tryCodec_of_eq (w := ⟨v, none, 1, 0, true⟩) hhtml]
    refine iff_of_true ?_ (.inl hhtml)
    by_cases hpercent : d.decode .percentCodec v = v
    · rw [tryCodec_of_eq (w := ⟨v, none, 1, 0, true⟩) hpercent]
    · rw [tryCodec_of_ne (w := ⟨v, none, 1, 0, true⟩) hpercent]
      exact Nat.le_refl 1
  · rw [tryCodec_of_ne (w := ⟨v, none, 1, 0, true⟩) hhtml]
    by_cases hpercent : d.decode .percentCodec (d.decode .htmlEntityCodec v) =
        d.decode .htmlEntityCodec v
    · rw [tryCodec_of_eq hpercent]
      exact iff_of_true (Nat.le_refl 1) (.inr hpercent)
    · rw [tryCodec_of_ne hpercent]
      refine iff_of_false (fun hle => ?_) fun h => h.elim hhtml hpercent
      exact absurd (show 2 ≤ 1 from hle) (by decide)

/-- **One round, by one decoder at most**, is what the counts are for. -/
theorem singlyEncoded_iff (v : List Char) :
    SinglyEncoded d v ↔ (decodeAll d ⟨v, none, 1, 0, false⟩).foundCount < 2 ∧
      (decodeAll d ⟨v, none, 1, 0, false⟩).mixedCount ≤ 1 := by
  by_cases hv : IsFixed d v
  · rw [decodeAll_of_isFixed (w := ⟨v, none, 1, 0, false⟩) hv, SinglyEncoded,
      decodeOnce_of_isFixed hv]
    exact iff_of_true ⟨hv, .inl (hv _)⟩ ⟨Nat.zero_lt_two, Nat.le_refl 1⟩
  obtain ⟨-, hfound, -⟩ := tryCodecs_of_not_isFixed (w := ⟨v, none, 1, 0, false⟩) hv
  have hworking := working_tryCodecs (d := d) ⟨v, none, 1, 0, false⟩
  rw [decodeAll_of_not_isFixed (w := ⟨v, none, 1, 0, false⟩) hv]
  by_cases honce : IsFixed d (decodeOnce d v)
  · rw [decodeAll_of_isFixed (hworking ▸ honce), SinglyEncoded, and_iff_right honce,
      ← mixedCount_first]
    exact (and_iff_right (hfound ▸ Nat.one_lt_two)).symm
  · refine iff_of_false (fun h => honce h.1) fun h => ?_
    -- a second round counts once more
    obtain ⟨-, hagain, -⟩ := tryCodecs_of_not_isFixed (hworking ▸ honce)
    have hgrows := (decodeAll_spec (d := d) (tryCodecs d (tryCodecs d ⟨v, none, 1, 0, false⟩))).2.1
    rw [decodeAll_of_not_isFixed (hworking ▸ honce)] at h
    dsimp only at hfound
    omega

theorem working_of_singlyEncoded {v : List Char} (h : SinglyEncoded d v) :
    (decodeAll d ⟨v, none, 1, 0, false⟩).working = decodeOnce d v := by
  by_cases hv : IsFixed d v
  · rw [decodeAll_of_isFixed (w := ⟨v, none, 1, 0, false⟩) hv, decodeOnce_of_isFixed hv]
  · have hworking := working_tryCodecs (d := d) ⟨v, none, 1, 0, false⟩
    rw [decodeAll_of_not_isFixed (w := ⟨v, none, 1, 0, false⟩) hv,
      decodeAll_of_isFixed (hworking ▸ h.1), hworking]

theorem canonicalize_strict (v : List Char) :
    canonicalize d v true true =
      if 2 ≤ (decodeAll d ⟨v, none, 1, 0, false⟩).foundCount ∨
        1 < (decodeAll d ⟨v, none, 1, 0, false⟩).mixedCount then .error intrusion
      else .ok (decodeAll d ⟨v, none, 1, 0, false⟩).working := by
  rw [canonicalize]
  by_cases hfound : 2 ≤ (decodeAll d ⟨v, none, 1, 0, false⟩).foundCount
  · by_cases hmixed : 1 < (decodeAll d ⟨v, none, 1, 0, false⟩).mixedCount
    · simp [hfound, hmixed]
    · simp [hfound, hmixed]
  · by_cases hmixed : 1 < (decodeAll d ⟨v, none, 1, 0, false⟩).mixedCount
    · simp [hfound, hmixed]
    · simp [hfound, hmixed]

theorem canonicalize_of_singlyEncoded {v : List Char} (h : SinglyEncoded d v) :
    canonicalize d v true true = .ok (decodeOnce d v) := by
  have hcounts := (singlyEncoded_iff v).mp h
  rw [canonicalize_strict, if_neg (by omega), working_of_singlyEncoded h]

theorem canonicalize_of_not_singlyEncoded {v : List Char} (h : ¬SinglyEncoded d v) :
    canonicalize d v true true = .error intrusion := by
  rw [singlyEncoded_iff] at h
  rw [canonicalize_strict, if_pos (by omega)]

end Decoding

/-! ### Events -/

theorem containsIgnoreCase_iff {str searchStr : List Char} :
    containsIgnoreCase str searchStr = true ↔ searchStr.map foldCase <:+: str.map foldCase := by
  rw [containsIgnoreCase, List.any_eq_true, List.infix_iff_prefix_suffix]
  simp only [List.mem_tails, List.isPrefixOf_iff_prefix]
  exact exists_congr fun _ => and_comm

theorem substringBetween_iff {str start mid : List Char} {c : Char} (hstart : start ≠ []) :
    substringBetween str start [c] = some mid ↔
      ∃ pre post, str = pre ++ start ++ (mid ++ c :: post) ∧
        (∀ i < pre.length, ¬start <+: str.drop i) ∧ c ∉ mid := by
  rw [substringBetween, Option.bind_eq_some_iff]
  constructor
  · rintro ⟨i, hi, hbetween⟩
    obtain ⟨j, hj, rfl⟩ := Option.map_eq_some_iff.mp hbetween
    obtain ⟨⟨rest, hrest⟩, hfirst⟩ := Text.find_eq_some_iff.mp hi
    have hlen : i + start.length ≤ str.length :=
      Text.le_length_of_prefix hstart ⟨rest, hrest⟩
    have hdrop : str.drop (i + start.length) = rest := by
      rw [← List.drop_drop, ← hrest, List.drop_left]
    obtain ⟨mid, post, hsplit, rfl, hmid⟩ := Text.find_singleton_iff.mp hj
    refine ⟨str.take i, post, ?_, ?_, ?_⟩
    · rw [hsplit, List.take_left, ← hsplit, hdrop, List.append_assoc, hrest,
        List.take_append_drop]
    · rw [List.length_take_of_le (by omega)]
      exact hfirst
    · rw [hsplit, List.take_left]
      exact hmid
  · rintro ⟨pre, post, hstr, hfirst, hmid⟩
    have hdrop : str.drop pre.length = start ++ (mid ++ c :: post) := by
      rw [hstr, List.append_assoc, List.drop_left]
    have hrest : str.drop (pre.length + start.length) = mid ++ c :: post := by
      rw [← List.drop_drop, hdrop, List.drop_left]
    refine ⟨pre.length, Text.find_eq_some_iff.mpr ⟨⟨_, hdrop.symm⟩, hfirst⟩, ?_⟩
    rw [hrest, Text.find_singleton_iff.mpr ⟨mid, post, rfl, rfl, hmid⟩, Option.map_some,
      List.take_left]

theorem event_spec : ∀ event ∈ jsEventList,
    containsIgnoreCase event ("on".toList ++ "null".toList) = false ∧
      '=' ∉ event.map foldCase := by
  decide +kernel

theorem any_event_iff {t : List Char} :
    (jsEventList.any fun str => containsIgnoreCase str (onEvent t)) = true ↔ FirstIsEvent t := by
  rw [List.any_eq_true, onEvent, FirstIsEvent]
  rcases hbetween : substringBetween t " on".toList "=".toList with _ | mid
  · refine iff_of_false ?_ ?_
    · rintro ⟨event, hevent, hcontains⟩
      rw [Option.getD_none, (event_spec event hevent).1] at hcontains
      cases hcontains
    · rintro ⟨pre, mid, post, hsplit, hfirst, hmid, -⟩
      have hsome := (substringBetween_iff (by decide)).mpr ⟨pre, post, hsplit, hfirst, hmid⟩
      cases hbetween.symm.trans hsome
  · rw [Option.getD_some]
    simp only [containsIgnoreCase_iff]
    constructor
    · rintro hevent
      obtain ⟨pre, post, hsplit, hfirst, hmid⟩ := (substringBetween_iff (by decide)).mp hbetween
      exact ⟨pre, mid, post, hsplit, hfirst, hmid, hevent⟩
    · rintro ⟨pre, mid', post, hsplit, hfirst, hmid, hevent⟩
      have hsome := (substringBetween_iff (by decide)).mpr ⟨pre, post, hsplit, hfirst, hmid⟩
      obtain rfl := Option.some.inj (hbetween.symm.trans hsome)
      exact hevent

theorem not_firstIsEvent {t : List Char} (h : ¬" on".toList <:+: t) : ¬FirstIsEvent t := by
  rintro ⟨pre, mid, post, rfl, -⟩
  exact h ⟨pre, mid ++ '=' :: post, rfl⟩

theorem hasJsEvent_iff {t : List Char} :
    hasJsEvent t = true ↔ FirstIsEvent t ∨ "seekSegmentTime".toList <:+: t := by
  rw [hasJsEvent, Bool.or_eq_true, any_event_iff, List.any_eq_true, List.infix_iff_prefix_suffix]
  simp only [List.mem_tails, List.isPrefixOf_iff_prefix]
  exact or_congr Iff.rfl (exists_congr fun _ => and_comm)

/-! ### The errors of the check -/

section Check

variable {d} (getMessage : Option (List Char → List Char → List Char)) (valueName : List Char)

theorem errors_eq_nil_iff {v : List Char} (hv : v ≠ []) :
    (checkStringForHtmlStrictNone d getMessage valueName (some v)).2 = [] ↔
      SinglyEncoded d v ∧ ('<' ∉ decodeOnce d v ∧ '>' ∉ decodeOnce d v) ∧
        hasJsEvent (decodeOnce d v) = false := by
  rw [checkStringForHtmlStrictNone]
  swap
  · exact hv
  by_cases h : SinglyEncoded d v
  · simp [canonicalize_of_singlyEncoded h, h]
  · simp [canonicalize_of_not_singlyEncoded h, h]

theorem decode_nil (codec : Codec) : d.decode codec [] = [] := by
  by_contra h
  exact absurd (d.shortens codec [] h) (Nat.not_lt_zero _)

theorem decodeOnce_nil : decodeOnce d [] = [] := by
  rw [decodeOnce, decode_nil, decode_nil]

theorem not_hasEventAttribute_nil : ¬HasEventAttribute [] := by
  rintro ⟨pre, space, name, post, h, -⟩
  exact absurd (congrArg List.length h) (by simp)

theorem isFixed_of_canonicalize (v : List Char) (restrictMultiple restrictMixed : Bool) :
    match canonicalize d v restrictMultiple restrictMixed with
    | .error _ => True
    | .ok t => IsFixed d t := by
  rcases canonicalize_cases (d := d) v restrictMultiple restrictMixed with h | h
  · rw [h]
    trivial
  · rw [h]
    exact (decodeAll_spec _).1

theorem safe_iff (v : List Char) :
    ((checkStringForHtmlStrictNone d getMessage valueName (some v)).2 = [] →
      ∀ t, canonicalize d v false false = .ok t → '<' ∉ t ∧ '>' ∉ t ∧ ¬HasEventAttribute t) ↔
    (HasEventAttribute (decodeOnce d v) → ¬SinglyEncoded d v ∨ '<' ∈ decodeOnce d v ∨
      '>' ∈ decodeOnce d v ∨ FirstIsEvent (decodeOnce d v) ∨
        "seekSegmentTime".toList <:+: decodeOnce d v) := by
  by_cases hv : v = []
  · subst hv
    rw [decodeOnce_nil]
    refine iff_of_true (fun _ t ht => ?_) fun h => absurd h not_hasEventAttribute_nil
    have hfixed : IsFixed d [] := isFixed_iff.mpr ⟨decode_nil _, decode_nil _⟩
    rw [canonicalize_lenient, decodeAll_of_isFixed (w := ⟨[], none, 1, 0, false⟩) hfixed] at ht
    obtain rfl := Except.ok.inj ht
    exact ⟨List.not_mem_nil, List.not_mem_nil, not_hasEventAttribute_nil⟩
  rw [errors_eq_nil_iff _ _ hv, ← Bool.not_eq_true, hasJsEvent_iff]
  constructor
  · intro hsafe hattribute
    by_contra hcon
    simp only [not_or, not_not] at hcon
    obtain ⟨hsingly, hless, hgreater, hevent, hseek⟩ := hcon
    have hcanonical := canonicalize_lenient (d := d) v
    rw [working_of_singlyEncoded hsingly] at hcanonical
    exact (hsafe ⟨hsingly, ⟨hless, hgreater⟩, not_or.mpr ⟨hevent, hseek⟩⟩ _ hcanonical).2.2
      hattribute
  · rintro hfound ⟨hsingly, ⟨hless, hgreater⟩, hevent⟩ t ht
    rw [canonicalize_lenient, working_of_singlyEncoded hsingly] at ht
    obtain rfl := Except.ok.inj ht
    refine ⟨hless, hgreater, fun hattribute => ?_⟩
    rcases hfound hattribute with h | h | h | h
    · exact h hsingly
    · exact hless h
    · exact hgreater h
    · exact hevent h

end Check

/-- **Which texts are checked rightly**: those whose first blank with `on` makes an event, and those
that have no event attribute or are rejected for another reason. -/
theorem htmlStrictNoneRight_iff (d : Decoders)
    (getMessage : Option (List Char → List Char → List Char)) (valueName : List Char)
    (value : Option (List Char)) :
    HtmlStrictNoneRight d getMessage valueName value ↔
      ∀ v ∈ value, HasEventAttribute (decodeOnce d v) → ¬SinglyEncoded d v ∨
        '<' ∈ decodeOnce d v ∨ '>' ∈ decodeOnce d v ∨ FirstIsEvent (decodeOnce d v) ∨
          "seekSegmentTime".toList <:+: decodeOnce d v := by
  refine forall₂_congr fun v hv => ?_
  rw [Option.mem_def.mp hv, safe_iff]
  exact and_iff_left (isFixed_of_canonicalize v)

def plainDecoders : Decoders where
  decode _ s := s
  shortens _ _ h := absurd rfl h

theorem not_htmlStrictNoneRight_tab :
    ¬HtmlStrictNoneRight plainDecoders none "field".toList (some "x\tonclick=y".toList) := by
  intro hright
  have hfixed : IsFixed plainDecoders "x\tonclick=y".toList := fun _ => rfl
  have hsingly : SinglyEncoded plainDecoders "x\tonclick=y".toList := ⟨hfixed, .inl rfl⟩
  have hevent : hasJsEvent "x\tonclick=y".toList = false := by
    rw [← Bool.not_eq_true, hasJsEvent_iff, not_or]
    refine ⟨not_firstIsEvent ?_, ?_⟩
    · decide +kernel
    · decide +kernel
  have herrors := (errors_eq_nil_iff none "field".toList (by decide)).mpr
    ⟨hsingly, by decide +kernel, hevent⟩
  have hcanonical := canonicalize_lenient (d := plainDecoders) "x\tonclick=y".toList
  rw [working_of_singlyEncoded hsingly] at hcanonical
  refine ((hright _ rfl).1 herrors _ hcanonical).2.2 ?_
  exact ⟨['x'], '\t', "onclick".toList, ['y'], by decide, by decide, "onClick".toList,
    List.mem_map_of_mem (by decide +kernel), by decide +kernel⟩

end OfficeAuto.Base.UtilCodec
