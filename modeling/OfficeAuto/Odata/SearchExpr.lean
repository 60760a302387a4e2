import OfficeAuto.Logic.Loop
import OfficeAuto.Text.Split

/-!
# Search options

The search option of an entity type lists the fields that `$search` looks at: properties of the
type, and properties of related entities in the form `nav/[p1,p2]`. `parseSearchExpr` cuts the list
at its commas, except those between brackets.

Every pass of the scanner takes something off the text, and none cuts outside of it, so there is a
result for every text (`exists_parseSearchExpr`); where brackets do not match it is one that drops
characters. A list of fields is read back from its text (`parseSearchExpr_searchOption`).
-/

namespace OfficeAuto.Odata

open Text (indexOf substring)

/-! ### The scanner -/

abbrev SearchScan := List (List Char) × List Char

def cut (s : List Char) (b e : Int) : Outcome (List Char) :=
  match substring s b e with
  | some t => .done t
  | none => .threw

def parseSearchPass (scan : SearchScan) : Outcome (SearchScan ⊕ List (List Char)) :=
  let (subList, searchExpr) := scan
  if searchExpr = [] then .done (.inr subList)
  else if ',' ∉ searchExpr then .done (.inr (subList ++ [searchExpr]))
  else
    (cut searchExpr 0 (indexOf ',' searchExpr)).bind fun sub =>
      if '[' ∈ sub then
        -- without a closing bracket this is the empty text
        (cut searchExpr 0 (indexOf ']' searchExpr + 1)).bind fun arrStr =>
          if arrStr = searchExpr then .done (.inr (subList ++ [arrStr]))
          else
            (cut searchExpr (indexOf ']' searchExpr + 1 + 1) searchExpr.length).bind fun rest =>
              .done (.inl (subList ++ [arrStr], rest))
      else
        (cut searchExpr (indexOf ',' searchExpr + 1) searchExpr.length).bind fun rest =>
          .done (.inl (subList ++ [sub], rest))

/-- **`parseSearchExpr`**, on a budget for the passes of its loop. -/
def parseSearchExpr (n : ℕ) (searchExpr : List Char) : Outcome (List (List Char)) :=
  Outcome.loop parseSearchPass n ([], searchExpr)

/-! ### The scanner ends -/

theorem cut_eq_done {s t : List Char} {b e : Int} (h : substring s b e = some t) :
    cut s b e = .done t := by
  rw [cut, h]

theorem exists_cut {s : List Char} {b e : Int} (hb : 0 ≤ b) (hbe : b ≤ e) (he : e ≤ s.length) :
    ∃ t, cut s b e = .done t ∧ (t.length : Int) = e - b := by
  obtain ⟨t, ht, hlength⟩ := Text.exists_substring hb hbe he
  exact ⟨t, cut_eq_done ht, hlength⟩

/-- **A pass does not throw**, and it leaves a shorter text if it goes on. -/
theorem exists_parseSearchPass (scan : SearchScan) :
    ∃ r, parseSearchPass scan = .done r ∧
      ∀ next, r = .inl next → next.2.length < scan.2.length := by
  obtain ⟨subList, s⟩ := scan
  unfold parseSearchPass
  dsimp only
  by_cases hnil : s = []
  · exact ⟨_, if_pos hnil, fun next h => by cases h⟩
  rw [if_neg hnil]
  by_cases hcomma : ',' ∈ s
  · have hpos := Text.indexOf_nonneg hcomma
    have hlt := (Text.indexOf_bounds ',' s).2
    have harr := Text.indexOf_bounds ']' s
    rw [if_neg (not_not_intro hcomma)]
    obtain ⟨sub, hsub, -⟩ := exists_cut (Int.le_refl 0) hpos (Int.le_of_lt hlt)
    simp only [hsub, Outcome.bind]
    by_cases hbracket : '[' ∈ sub
    · rw [if_pos hbracket]
      obtain ⟨arrStr, harrStr, hlength⟩ :=
        @exists_cut s 0 (indexOf ']' s + 1) (Int.le_refl _) (by omega) (by omega)
      simp only [harrStr]
      by_cases hwhole : arrStr = s
      · exact ⟨_, if_pos hwhole, fun next h => by cases h⟩
      · rw [if_neg hwhole]
        -- the bracket is not the last character, or else the whole text was taken
        have hlast : indexOf ']' s + 1 ≠ s.length := by
          intro heq
          rw [heq, cut, Text.substring, if_pos (by omega)] at harrStr
          simp at harrStr
          exact hwhole harrStr.symm
        obtain ⟨rest, hrest, hlength⟩ :=
          @exists_cut s (indexOf ']' s + 1 + 1) s.length (by omega) (by omega) (Int.le_refl _)
        simp only [hrest]
        refine ⟨_, rfl, fun next h => ?_⟩
        cases h
        dsimp only
        omega
    · rw [if_neg hbracket]
      obtain ⟨rest, hrest, hlength⟩ :=
        @exists_cut s (indexOf ',' s + 1) s.length (by omega) (by omega) (Int.le_refl _)
      simp only [hrest]
      refine ⟨_, rfl, fun next h => ?_⟩
      cases h
      dsimp only
      omega
  · exact ⟨_, if_pos hcomma, fun next h => by cases h⟩

/-- **The scanner ends on every text without an exception.** -/
theorem exists_parseSearchExpr {s : List Char} {n : ℕ} (h : s.length < n) :
    ∃ subList, parseSearchExpr n s = .done subList := by
  suffices hscan : ∀ scan : SearchScan, scan.2.length < n →
      ∃ subList, Outcome.loop parseSearchPass n scan = .done subList from hscan ([], s) h
  clear h
  induction n with
  | zero => exact fun scan h => absurd h (Nat.not_lt_zero _)
  | succ n ih =>
    intro scan h
    obtain ⟨r, hr, hshorter⟩ := exists_parseSearchPass scan
    cases r with
    | inl next =>
      rw [Outcome.loop_succ_of_inl hr]
      exact ih next (by have := hshorter next rfl; omega)
    | inr subList => exact ⟨subList, Outcome.loop_succ_of_inr hr⟩

/-! ### Search fields -/

def IsSearchName (name : List Char) : Prop :=
  name ≠ [] ∧ ',' ∉ name ∧ '[' ∉ name ∧ ']' ∉ name

instance (name : List Char) : Decidable (IsSearchName name) :=
  inferInstanceAs (Decidable (_ ∧ _))

abbrev SearchName := {name : List Char // IsSearchName name}

/-- A search field: a property, or properties of the entities at a navigation. -/
inductive SearchField
  | property (name : SearchName)
  | path (nav : SearchName) (properties : List SearchName)

namespace SearchField

variable {rest : List Char}

def pathHead (nav : SearchName) (properties : List SearchName) : List Char :=
  nav.1 ++ '/' :: '[' :: [','].intercalate (properties.map Subtype.val)

def text : SearchField → List Char
  | property name => name.1
  | path nav properties => pathHead nav properties ++ [']']

theorem text_path (nav : SearchName) (properties : List SearchName) :
    (path nav properties).text ++ rest = (nav.1 ++ ['/']) ++
      '[' :: ([','].intercalate (properties.map Subtype.val) ++ ']' :: rest) := by
  simp [text, pathHead]

theorem text_ne_nil (field : SearchField) : field.text ≠ [] := by
  cases field with
  | property name => exact name.2.1
  | path nav properties => simp [text]

theorem bracket_not_mem_pathHead (nav : SearchName) (properties : List SearchName) :
    ']' ∉ pathHead nav properties := by
  have hnav : ']' ∉ nav.1 := nav.2.2.2.2
  have hlist : ']' ∉ [','].intercalate (properties.map Subtype.val) := by
    induction properties with
    | nil => simp
    | cons p ps ih =>
      cases ps with
      | nil => simpa using p.2.2.2.2
      | cons q qs =>
        rw [List.map_cons, List.map_cons, List.intercalate_cons_cons]
        simpa using ⟨p.2.2.2.2, ih⟩
  simpa [pathHead] using ⟨hnav, hlist⟩

end SearchField

def searchOption (fields : List SearchField) : List Char :=
  [','].intercalate (fields.map SearchField.text)

/-! ### Reading the fields back -/

variable {subList : List (List Char)} {rest : List Char}

theorem cut_left (s rest : List Char) {e : Int} (he : e = s.length) :
    cut (s ++ rest) 0 e = .done s := by
  rw [he, cut_eq_done (Text.substring_left s rest)]

theorem cut_right (pre s : List Char) {b : Int} (hb : b = pre.length) :
    cut (pre ++ s) b (pre ++ s).length = .done s := by
  rw [hb, cut_eq_done (Text.substring_right pre s)]

theorem exists_cut_comma {u v : List Char} (h : ',' ∉ u) (hmem : ',' ∈ v) :
    ∃ sub, cut (u ++ '[' :: v) 0 (indexOf ',' (u ++ '[' :: v)) = .done sub ∧ '[' ∈ sub := by
  obtain ⟨v₁, v₂, rfl, hv⟩ := List.eq_append_cons_of_mem hmem
  have hu : ',' ∉ u ++ '[' :: v₁ := by simp [h, hv]
  refine ⟨u ++ '[' :: v₁, ?_, by simp⟩
  rw [← List.cons_append, ← List.append_assoc]
  exact cut_left _ _ (Text.indexOf_append_cons hu v₂)

theorem parseSearchPass_path (nav : SearchName) (properties : List SearchName)
    (hcomma : ',' ∈ (SearchField.path nav properties).text ++ rest) :
    parseSearchPass (subList, (SearchField.path nav properties).text ++ rest) =
      if rest = [] then .done (.inr (subList ++ [(SearchField.path nav properties).text]))
      else .done (.inl (subList ++ [(SearchField.path nav properties).text], rest.tail)) := by
  have hclose : indexOf ']' ((SearchField.path nav properties).text ++ rest) =
      (SearchField.pathHead nav properties).length := by
    rw [SearchField.text, List.append_assoc]
    exact Text.indexOf_append_cons (SearchField.bracket_not_mem_pathHead nav properties) rest
  obtain ⟨sub, hsub, hopen⟩ : ∃ sub, cut ((SearchField.path nav properties).text ++ rest) 0
      (indexOf ',' ((SearchField.path nav properties).text ++ rest)) = .done sub ∧ '[' ∈ sub := by
    have hnav : ',' ∉ nav.1 ++ ['/'] := by simp [nav.2.2.1]
    rw [SearchField.text_path] at hcomma ⊢
    refine exists_cut_comma hnav ?_
    simpa [nav.2.2.1] using hcomma
  have hlength : ((SearchField.path nav properties).text.length : ℤ) =
      (SearchField.pathHead nav properties).length + 1 := by
    rw [SearchField.text, List.length_append]
    rfl
  generalize (SearchField.path nav properties).text = text at *
  have hne : text ++ rest ≠ [] := List.ne_nil_of_mem hcomma
  unfold parseSearchPass
  dsimp only
  rw [if_neg hne, if_neg (not_not_intro hcomma), hsub]
  simp only [Outcome.bind]
  rw [if_pos hopen, hclose, ← hlength]
  simp only [cut_left text rest rfl]
  by_cases hnil : rest = []
  · rw [if_pos hnil, if_pos (by simp [hnil])]
  · obtain ⟨c, rest, rfl⟩ := List.exists_cons_of_ne_nil hnil
    have hright := @cut_right (text ++ [c]) rest (text.length + 1) (by simp)
    rw [List.append_assoc, List.singleton_append] at hright
    rw [if_neg (by simp), if_neg hnil, hright]
    rfl

theorem parseSearchPass_cons (field : SearchField) :
    parseSearchPass (subList, field.text ++ ',' :: rest) =
      .done (.inl (subList ++ [field.text], rest)) := by
  have hcomma : ',' ∈ field.text ++ ',' :: rest := by simp
  cases field with
  | property name =>
    obtain ⟨name, hname⟩ := name
    have hindex : indexOf ',' (name ++ ',' :: rest) = name.length :=
      Text.indexOf_append_cons hname.2.1 rest
    have hright : cut (name ++ ',' :: rest) (name.length + 1) (name ++ ',' :: rest).length =
        .done rest := by
      have := @cut_right (name ++ [',']) rest (name.length + 1) (by simp)
      rwa [List.append_assoc, List.singleton_append] at this
    simp only [parseSearchPass, SearchField.text, List.append_eq_nil_iff, reduceCtorEq, and_false,
      if_false, hindex, cut_left name (',' :: rest) rfl, Outcome.bind, hname.2.2.1, hright]
    exact if_neg (not_not_intro hcomma)
  | path nav properties =>
    rw [parseSearchPass_path nav properties hcomma, if_neg (by simp)]
    rfl

theorem parseSearchPass_last (field : SearchField) :
    parseSearchPass (subList, field.text) = .done (.inr (subList ++ [field.text])) := by
  by_cases hcomma : ',' ∈ field.text
  · cases field with
    | property name => exact absurd hcomma name.2.2.1
    | path nav properties =>
      have h := @parseSearchPass_path subList [] nav properties (by simpa using hcomma)
      rwa [List.append_nil, if_pos rfl] at h
  · rw [parseSearchPass, if_neg field.text_ne_nil, if_pos hcomma]

/-- **The fields are read back** from their search option. -/
theorem parseSearchExpr_searchOption {fields : List SearchField} {n : ℕ}
    (h : (searchOption fields).length < n) :
    parseSearchExpr n (searchOption fields) = .done (fields.map SearchField.text) := by
  suffices hscan : ∀ subList : List (List Char),
      Outcome.loop parseSearchPass n (subList, searchOption fields) =
        .done (subList ++ fields.map SearchField.text) from hscan []
  induction fields generalizing n with
  | nil =>
    obtain ⟨n, rfl⟩ := Nat.exists_eq_succ_of_ne_zero (Nat.ne_zero_of_lt h)
    intro subList
    rw [List.map_nil, List.append_nil]
    exact Outcome.loop_succ_of_inr rfl
  | cons field fields ih =>
    obtain ⟨n, rfl⟩ := Nat.exists_eq_succ_of_ne_zero (Nat.ne_zero_of_lt h)
    intro subList
    cases fields with
    | nil =>
      rw [searchOption, List.map_singleton, List.intercalate_singleton]
      exact Outcome.loop_succ_of_inr (parseSearchPass_last field)
    | cons next fields =>
      have hoption : searchOption (field :: next :: fields) =
          field.text ++ ',' :: searchOption (next :: fields) := by
        simp [searchOption, List.intercalate_cons_cons]
      rw [hoption] at h ⊢
      rw [List.length_append, List.length_cons] at h
      rw [Outcome.loop_succ_of_inl (parseSearchPass_cons field), ih (by omega), List.append_assoc]
      rfl

/-- **Search options are parsed.** A list of fields is read back from its text, and every text has a
result. -/
theorem parseSearchExpr_correct :
    (∀ (fields : List SearchField) (n : ℕ), (searchOption fields).length < n →
      parseSearchExpr n (searchOption fields) = .done (fields.map SearchField.text)) ∧
    ∀ (s : List Char) (n : ℕ), s.length < n → ∃ subList, parseSearchExpr n s = .done subList :=
  ⟨fun _ _ h => parseSearchExpr_searchOption h, fun _ _ h => exists_parseSearchExpr h⟩

def productNameField : SearchName := ⟨"productName".toList, by decide⟩

def geoIdField : SearchName := ⟨"geoId".toList, by decide⟩

theorem parseSearchExpr_correct_product :
    parseSearchExpr 40 "productName,Geo/[geoId,productName]".toList =
      .done ["productName".toList, "Geo/[geoId,productName]".toList] :=
  parseSearchExpr_correct.1
    [.property productNameField,
      .path ⟨"Geo".toList, by decide⟩ [geoIdField, productNameField]] 40 (by decide)

/-- Without a closing bracket the opening one is lost. -/
example : parseSearchExpr 9 "[a,b".toList = .done [[], "a".toList, "b".toList] := by decide

end OfficeAuto.Odata
