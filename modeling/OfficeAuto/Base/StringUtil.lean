import OfficeAuto.Logic.EntryList
import OfficeAuto.Text.Split
import OfficeAuto.Text.SplitPair

/-!
# Collections written as text

The decoders of `StringUtil`. `toMap`, `toList` and `toSet` read what `toString` writes of a map, a
list or a set: the text between the brackets is split at commas with a white space behind them, and
an entry of a map at its equals sign. `split` drops trailing empty pieces. The entry of an empty
value is skipped for that (`putEntry_eq`), as the comment of `toMap` says, and the other entries
come back (`toMap_mapToString`). A list comes back if it has an element and does not end with an
empty one (`toList_listToString`).
-/

namespace OfficeAuto.Base.StringUtil

/-! ### Collections and their texts -/

abbrev StringMap := EntryList (List Char) (List Char)

/-- A set of texts: its elements in the order of iteration. -/
structure StringSet where
  elements : List (List Char)
  nodup : elements.Nodup

def listToString (es : List (List Char)) : List Char := '[' :: [',', ' '].intercalate es ++ [']']

def entryToString (e : List Char × List Char) : List Char := e.1 ++ '=' :: e.2

def mapToString (m : StringMap) : List Char :=
  '{' :: [',', ' '].intercalate (m.entries.map entryToString) ++ ['}']

/-! ### The decoders -/

def isSpace (c : Char) : Bool := [' ', '\t', '\n', '\x0B', '\x0C', '\r'].contains c

/-- `s.startsWith(o) && s.endsWith(c)` -/
def isEnclosed (o c : Char) (s : List Char) : Bool := s.head? == some o && s.getLast? == some c

/-- `s.substring(1, s.length() - 1)`, split at commas with a white space. -/
def splitInner (s : List Char) : List (List Char) := Text.splitPair ',' isSpace s.tail.dropLast

def putEntry (newMap : List Char → Option (List Char)) (entry : List Char) :
    List Char → Option (List Char) :=
  match Text.split '=' entry with
  | [n, v] => Function.update newMap n (some v)
  | _ => newMap

/-- **`toMap`**, which returns a `HashMap`. -/
def toMap (s : List Char) : Except String (List Char → Option (List Char)) :=
  if isEnclosed '{' '}' s then .ok ((splitInner s).foldl putEntry fun _ => none)
  else .error "String is not from Map.toString()"

/-- **`toList`** -/
def toList (s : List Char) : Except String (List (List Char)) :=
  if isEnclosed '[' ']' s then .ok (splitInner s)
  else .error "String is not from List.toString()"

def add (newSet : List (List Char)) (entry : List Char) : List (List Char) :=
  if newSet.contains entry then newSet else newSet ++ [entry]

/-- **`toSet`** -/
def toSet (s : List Char) : Except String (List (List Char)) :=
  if isEnclosed '[' ']' s then .ok ((splitInner s).foldl add [])
  else .error "String is not from Set.toString()"

/-! ### What the decoders return -/

/-- A text in which no comma has a white space behind it, and which has no equals sign. -/
def IsPlain (s : List Char) : Prop := Text.hasPair ',' isSpace s = false ∧ '=' ∉ s

instance (s : List Char) : Decidable (IsPlain s) := inferInstanceAs (Decidable (_ ∧ _))

/-- The collection has an element, and the last one is not empty unless it is the only one. -/
def EndsNonempty (es : List (List Char)) : Prop :=
  ∃ h : es ≠ [], es.length = 1 ∨ es.getLast h ≠ []

theorem isEnclosed_append (o c : Char) (s : List Char) : isEnclosed o c (o :: s ++ [c]) = true := by
  rw [isEnclosed, List.getLast?_concat, List.cons_append, List.head?_cons, beq_self_eq_true,
    beq_self_eq_true]
  rfl

theorem splitInner_append (o c : Char) (s : List Char) :
    splitInner (o :: s ++ [c]) = Text.splitPair ',' isSpace s := by
  rw [splitInner, List.cons_append, List.tail_cons, List.dropLast_concat]

theorem splitPair_elements {es : List (List Char)} (hes : ∀ e ∈ es, IsPlain e)
    (hends : EndsNonempty es) : Text.splitPair ',' isSpace ([',', ' '].intercalate es) = es :=
  Text.splitPair_intercalate rfl rfl hends.1 (fun e he => (hes e he).1) hends.2

theorem toList_listToString {es : List (List Char)} (hes : ∀ e ∈ es, IsPlain e)
    (hends : EndsNonempty es) : toList (listToString es) = .ok es := by
  rw [toList, listToString, if_pos (isEnclosed_append _ _ _), splitInner_append,
    splitPair_elements hes hends]

theorem mem_foldl_add {newSet es : List (List Char)} {e : List Char} :
    e ∈ es.foldl add newSet ↔ e ∈ newSet ∨ e ∈ es := by
  induction es generalizing newSet with
  | nil => simp
  | cons f es ih =>
    have hadd : e ∈ add newSet f ↔ e ∈ newSet ∨ e = f := by
      rw [add]
      split_ifs with hf
      · refine ⟨Or.inl, fun h => h.elim id ?_⟩
        rintro rfl
        exact List.contains_iff_mem.mp hf
      · rw [List.mem_append, List.mem_singleton]
    rw [List.foldl_cons, ih, hadd, or_assoc, List.mem_cons]

theorem toSet_listToString {s : StringSet} (hs : ∀ e ∈ s.elements, IsPlain e)
    (hends : EndsNonempty s.elements) :
    ∃ t, toSet (listToString s.elements) = .ok t ∧ ∀ e, e ∈ t ↔ e ∈ s.elements := by
  refine ⟨s.elements.foldl add [], ?_, fun e => ?_⟩
  · rw [toSet, listToString, if_pos (isEnclosed_append _ _ _), splitInner_append,
      splitPair_elements hs hends]
  · rw [mem_foldl_add]
    exact or_iff_right List.not_mem_nil

/-- **An entry is put into the map, unless its value is empty.** -/
theorem putEntry_eq (newMap : List Char → Option (List Char)) {e : List Char × List Char}
    (hkey : '=' ∉ e.1) (hvalue : '=' ∉ e.2) :
    putEntry newMap (entryToString e) =
      if e.2 = [] then newMap else Function.update newMap e.1 (some e.2) := by
  rw [putEntry, entryToString]
  split_ifs with hempty
  · have hcut : (e.1 ++ ['=']).splitOn '=' = [e.1, []] := by
      have h : (['='].intercalate [e.1, []]).splitOn '=' = [e.1, []] :=
        List.splitOn_intercalate '=' (by simp [hkey]) (by simp)
      rwa [List.intercalate_cons_cons, List.intercalate_singleton, List.append_nil] at h
    rw [hempty, Text.split, if_pos (by simp), hcut]
    have hdrop : ([e.1, []].rdropWhile List.isEmpty).length < 2 := by
      rw [show [e.1, []] = [e.1] ++ [[]] from rfl, List.rdropWhile_concat_pos _ _ _ rfl]
      exact Nat.lt_of_le_of_lt (List.rdropWhile_prefix _ _).length_le (Nat.lt_succ_self 1)
    split
    case h_1 n v h =>
      rw [h] at hdrop
      exact absurd hdrop (Nat.lt_irrefl 2)
    case h_2 => rfl
  · rw [Text.split_pair hkey hvalue hempty]

theorem foldl_putEntry {es : List (List Char × List Char)} (hnodup : (es.map Prod.fst).Nodup)
    (hes : ∀ e ∈ es, '=' ∉ e.1 ∧ '=' ∉ e.2) (newMap : List Char → Option (List Char))
    (key : List Char) :
    (es.map entryToString).foldl putEntry newMap key =
      ((es.filter fun e => !e.2.isEmpty).lookup key).or (newMap key) := by
  induction es generalizing newMap with
  | nil => rfl
  | cons e es ih =>
    rw [List.map_cons, List.nodup_cons] at hnodup
    rw [List.forall_mem_cons] at hes
    rw [List.map_cons, List.foldl_cons, ih hnodup.2 hes.2, putEntry_eq newMap hes.1.1 hes.1.2]
    split_ifs with hempty
    · rw [List.filter_cons_of_neg (by simp [hempty])]
    · rw [List.filter_cons_of_pos (by simpa using hempty)]
      rcases eq_or_ne key e.1 with rfl | hne
      · have hnone : (es.filter fun e => !e.2.isEmpty).lookup e.1 = none := by
          rw [EntryList.lookup_filter hnodup.2 (fun v => !v.isEmpty),
            EntryList.lookup_eq_none hnodup.1, Option.filter_none]
        rw [hnone, Option.none_or, Function.update_self, EntryList.lookup_cons_self, Option.some_or]
      · rw [Function.update_of_ne hne, EntryList.lookup_cons_of_ne hne]

/-- **`toMap` returns the entries that have a value.** -/
theorem toMap_mapToString {m : StringMap} (hm : ∀ e ∈ m.entries, IsPlain e.1 ∧ IsPlain e.2) :
    toMap (mapToString m) =
      .ok fun key => (m.entries.filter fun e => !e.2.isEmpty).lookup key := by
  rw [toMap, mapToString, if_pos (isEnclosed_append _ _ _), splitInner_append]
  refine congrArg Except.ok (funext fun key => ?_)
  have hequals : ∀ e ∈ m.entries, '=' ∉ e.1 ∧ '=' ∉ e.2 := fun e he =>
    ⟨(hm e he).1.2, (hm e he).2.2⟩
  rcases eq_or_ne m.entries [] with hnil | hne
  · rw [hnil]
    rfl
  · rw [Text.splitPair_intercalate rfl rfl, foldl_putEntry m.nodup hequals, Option.or_none]
    · exact fun h => hne (List.map_eq_nil_iff.mp h)
    · intro text htext
      obtain ⟨e, he, rfl⟩ := List.mem_map.mp htext
      exact Text.not_hasPair_append (by decide) rfl (hm e he).1.1 (hm e he).2.1
    · right
      rw [List.getLast_map]
      exact List.append_ne_nil_of_right_ne_nil _ (List.cons_ne_nil _ _)

/-- **The decoders invert `toString`**: of a map, `toMap` returns the entries whose values are not
empty; a list or a set that has an element, and does not end with an empty one, comes back. -/
theorem toMap_toList_toSet {m : StringMap} {l : List (List Char)} {s : StringSet}
    (hm : ∀ e ∈ m.entries, IsPlain e.1 ∧ IsPlain e.2) (hl : ∀ e ∈ l, IsPlain e)
    (hs : ∀ e ∈ s.elements, IsPlain e) (hlist : EndsNonempty l)
    (hset : EndsNonempty s.elements) :
    (∃ newMap, toMap (mapToString m) = .ok newMap ∧
      ∀ key, newMap key = (m.get key).filter fun value => !value.isEmpty) ∧
    toList (listToString l) = .ok l ∧
    ∃ newSet, toSet (listToString s.elements) = .ok newSet ∧
      ∀ e, e ∈ newSet ↔ e ∈ s.elements :=
  ⟨⟨_, toMap_mapToString hm, EntryList.lookup_filter m.nodup fun v => !v.isEmpty⟩,
    toList_listToString hl hlist,
    toSet_listToString hs hset⟩

def fooBar : StringMap :=
  ⟨[("foo".toList, "fooValue".toList), ("bar".toList, [])], by decide⟩

theorem toMap_toList_toSet_fooBar :
    (∃ newMap, toMap (mapToString fooBar) = .ok newMap ∧
      ∀ key, newMap key = (fooBar.get key).filter fun value => !value.isEmpty) ∧
    toList (listToString ["a".toList, [], "b,".toList]) = .ok ["a".toList, [], "b,".toList] ∧
    ∃ newSet, toSet (listToString [[], "x y".toList]) = .ok newSet ∧
      ∀ e, e ∈ newSet ↔ e ∈ [[], "x y".toList] :=
  toMap_toList_toSet (m := fooBar) (s := ⟨[[], "x y".toList], by decide⟩)
    (by decide) (by decide) (by decide) ⟨by decide, by decide⟩ ⟨by decide, by decide⟩

/-- **The entry of an empty value is skipped.** -/
theorem toMap_fooBar_ne : toMap (mapToString fooBar) ≠ .ok fooBar.get := by
  rw [toMap_mapToString (by decide)]
  intro h
  have hbar := congrFun (Except.ok.inj h) "bar".toList
  exact absurd hbar (by decide)

end OfficeAuto.Base.StringUtil
