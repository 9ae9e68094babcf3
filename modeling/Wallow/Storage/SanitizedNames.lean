import Wallow.Storage.FileNames
import Mathlib.Data.List.DropRight
import Mathlib.Data.List.Enum
import Mathlib.Data.List.Nodup

/-!
# What a sanitized file name is like

`FileNameSanitizer.Sanitize` keeps some code units of a name and may put an underscore in the place
of others.  The steps are followed for lists whose elements carry a unit, so that they tell as well
which places of the file name are kept.
-/

namespace Wallow.Storage.FileNameSanitizer

/-! ## The units that are kept -/

def isSeparator (c : UInt16) : Bool := c = SLASH || c = BACKSLASH

section Units

variable {α β : Type} (unit : α → UInt16) (invalidFileNameChars : List UInt16)

def replaced (c : UInt16) : UInt16 := if c ∈ invalidFileNameChars then UNDERSCORE else c

/-- What stands after the last separator. -/
def lastPart (name : List α) : List α :=
  name.rtakeWhile fun a => !isSeparator (unit a)

def trimBy (p : α → Bool) (name : List α) : List α :=
  (name.dropWhile p).rdropWhile p

/-- The last part, without dangerous units and trimmed. -/
def cleaned (name : List α) : List α :=
  trimBy (fun a => isWhiteSpace (replaced invalidFileNameChars (unit a)))
    ((lastPart unit name).filter fun a => !isDangerous (unit a))

theorem lastPart_map (f : α → β) (unit' : β → UInt16) (h : ∀ a, unit' (f a) = unit a)
    (name : List α) : lastPart unit' (name.map f) = (lastPart unit name).map f := by
  unfold lastPart List.rtakeWhile
  rw [← List.map_reverse, List.takeWhile_map, List.map_reverse]
  simp only [Function.comp_def, h]

theorem trimBy_map (f : α → β) (p : β → Bool) (name : List α) :
    trimBy p (name.map f) = (trimBy (fun a => p (f a)) name).map f := by
  unfold trimBy List.rdropWhile
  rw [List.dropWhile_map, ← List.map_reverse, List.dropWhile_map, ← List.map_reverse]
  rfl

theorem cleaned_map (f : α → β) (unit' : β → UInt16) (h : ∀ a, unit' (f a) = unit a)
    (name : List α) : cleaned unit' invalidFileNameChars (name.map f) =
      (cleaned unit invalidFileNameChars name).map f := by
  unfold cleaned
  rw [lastPart_map unit f unit' h, List.filter_map, trimBy_map]
  simp only [Function.comp_def, h]

end Units

section Sanitize

variable {invalidFileNameChars : List UInt16} {fileName : Text}

theorem getFileName_eq (path : Text) :
    getFileName path = path.rtakeWhile (· ≠ SLASH) := by
  unfold getFileName List.rtakeWhile
  split
  · rename_i before name hsplit
    have ⟨hnone, hpath⟩ := SplitText.splitLast_eq_some hsplit
    have hall : ∀ c ∈ name.reverse, decide (c ≠ SLASH) = true := by
      intro c hc
      exact decide_eq_true fun heq => hnone (heq ▸ List.mem_reverse.mp hc)
    rw [hpath, List.reverse_append, List.reverse_cons, List.append_assoc,
      List.takeWhile_append_of_pos hall]
    simp
  · rename_i hsplit
    have hnone := SplitText.splitLast_eq_none hsplit
    have hall : ∀ c ∈ path.reverse, decide (c ≠ SLASH) = true := by
      intro c hc
      exact decide_eq_true fun heq => hnone (heq ▸ List.mem_reverse.mp hc)
    rw [List.takeWhile_eq_self_iff.mpr hall, List.reverse_reverse]

theorem lastPart_eq (fileName : Text) :
    getFileName (fileName.map fun c => if c = BACKSLASH then SLASH else c) =
      lastPart id fileName := by
  unfold lastPart
  rw [getFileName_eq, List.rtakeWhile, ← List.map_reverse, List.takeWhile_map, ← List.map_reverse]
  have htest : ((fun c : UInt16 => decide (c ≠ SLASH)) ∘
      fun c => if c = BACKSLASH then SLASH else c) = fun c => !isSeparator (id c) := by
    funext c
    unfold isSeparator
    by_cases hback : c = BACKSLASH
    · simp [hback]
    · simp [hback]
  rw [htest]
  -- none of the units left is a backslash
  refine (List.map_congr_left fun c hc => ?_).trans (List.map_id _)
  have hkept := List.mem_takeWhile_imp (List.mem_reverse.mp hc)
  unfold isSeparator at hkept
  by_cases hback : c = BACKSLASH
  · simp [hback] at hkept
  · rw [if_neg hback]
    rfl

variable (invalidFileNameChars fileName) in
/-- The name before it is shortened. -/
def cleanName : Text :=
  (cleaned id invalidFileNameChars fileName).map (replaced invalidFileNameChars)

theorem mem_of_mem_cleaned {α : Type} {unit : α → UInt16} {name : List α} {a : α}
    (h : a ∈ cleaned unit invalidFileNameChars name) :
    isSeparator (unit a) = false ∧ isDangerous (unit a) = false := by
  have htrimmed := (List.rdropWhile_prefix _ _).subset h
  have hfiltered := List.mem_filter.mp ((List.dropWhile_suffix _).subset htrimmed)
  have hlast := List.mem_rtakeWhile_imp hfiltered.1
  exact ⟨(Bool.not_eq_true' _).mp hlast, (Bool.not_eq_true' _).mp hfiltered.2⟩

theorem cleaned_sublist {α : Type} {unit : α → UInt16} {name : List α} :
    (cleaned unit invalidFileNameChars name).Sublist name := by
  unfold cleaned trimBy
  refine (List.rdropWhile_prefix _ _).sublist.trans ?_
  refine (List.dropWhile_suffix _).sublist.trans ?_
  exact List.filter_sublist.trans (List.rtakeWhile_suffix _ _).sublist

theorem replaced_replaced (c : UInt16) :
    replaced invalidFileNameChars (replaced invalidFileNameChars c) =
      replaced invalidFileNameChars c := by
  unfold replaced
  by_cases hc : c ∈ invalidFileNameChars
  · rw [if_pos hc, ite_self]
  · rw [if_neg hc, if_neg hc]

theorem units_of_mem_cleanName {c : UInt16} (h : c ∈ cleanName invalidFileNameChars fileName) :
    isSeparator c = false ∧ isDangerous c = false ∧ replaced invalidFileNameChars c = c := by
  have ⟨a, ha, hc⟩ := List.mem_map.mp h
  have ⟨hseparator, hdangerous⟩ := mem_of_mem_cleaned ha
  refine ⟨?_, ?_, hc ▸ replaced_replaced a⟩
  · rw [← hc]
    unfold replaced
    split
    · decide
    · exact hseparator
  · rw [← hc]
    unfold replaced
    split
    · decide
    · exact hdangerous

theorem slash_not_mem_cleanName : SLASH ∉ cleanName invalidFileNameChars fileName :=
  fun hmem => absurd (units_of_mem_cleanName hmem).1 (by decide)

variable (invalidFileNameChars fileName) in
def answersDefault : Bool :=
  isNullOrWhiteSpace fileName || isUnnamed (lastPart id fileName) ||
    isUnnamed (cleanName invalidFileNameChars fileName)

theorem sanitize_eq : sanitize invalidFileNameChars fileName =
    if answersDefault invalidFileNameChars fileName then defaultFileName
    else if MAX_FILE_NAME_LENGTH < (cleanName invalidFileNameChars fileName).length then
      shorten (cleanName invalidFileNameChars fileName)
    else cleanName invalidFileNameChars fileName := by
  have hclean : trim (((lastPart id fileName).filter fun c => !isDangerous c).map fun c =>
      if c ∈ invalidFileNameChars then UNDERSCORE else c) =
        cleanName invalidFileNameChars fileName := by
    show trimBy isWhiteSpace (List.map _ _) = _
    rw [trimBy_map]
    rfl
  unfold sanitize answersDefault
  dsimp only
  rw [lastPart_eq, hclean]
  cases isNullOrWhiteSpace fileName with
  | true => rfl
  | false =>
    cases isUnnamed (lastPart id fileName) with
    | true => rfl
    | false => rfl

/-! ## The ends of a name -/

/-- Neither end meets the test. -/
def EndsNot {α : Type} (p : α → Bool) (name : List α) : Prop :=
  (∀ a ∈ name.head?, p a = false) ∧ ∀ a ∈ name.getLast?, p a = false

theorem endsNot_trimBy {α : Type} (p : α → Bool) (name : List α) : EndsNot p (trimBy p name) := by
  unfold trimBy
  constructor
  · intro a ha
    have ⟨rest, hrest⟩ := List.head?_eq_some_iff.mp ha
    have ⟨after, hafter⟩ := List.rdropWhile_prefix p (name.dropWhile p)
    have hhead := List.head?_dropWhile_not p name
    rw [← hafter, hrest] at hhead
    exact hhead
  · intro a ha
    have hne : (name.dropWhile p).rdropWhile p ≠ [] := by
      intro hnil
      rw [hnil] at ha
      cases ha
    rw [List.getLast?_eq_some_getLast hne] at ha
    have hnot := List.rdropWhile_last_not p (name.dropWhile p) hne
    rw [Option.some.inj ha] at hnot
    exact Bool.eq_false_iff.mpr hnot

theorem trimBy_of_endsNot {α : Type} {p : α → Bool} {name : List α} (h : EndsNot p name) :
    trimBy p name = name := by
  unfold trimBy
  have hdrop : name.dropWhile p = name := by
    cases name with
    | nil => rfl
    | cons a rest => exact List.dropWhile_cons_of_neg (Bool.eq_false_iff.mp (h.1 a rfl))
  rw [hdrop, List.rdropWhile_eq_self_iff]
  intro hne
  exact Bool.eq_false_iff.mp (h.2 _ (List.getLast?_eq_some_getLast hne))

theorem endsNot_cleanName : EndsNot isWhiteSpace (cleanName invalidFileNameChars fileName) := by
  have htrim := endsNot_trimBy isWhiteSpace (((lastPart id fileName).filter fun c =>
    !isDangerous c).map (replaced invalidFileNameChars))
  rw [trimBy_map] at htrim
  exact htrim

theorem isUnnamed_of_mem {name : Text} {c : UInt16} (hc : c ∈ name)
    (hblank : isWhiteSpace c = false) (hlong : 2 < name.length) : isUnnamed name = false := by
  have hnot : isNullOrWhiteSpace name = false := by
    unfold isNullOrWhiteSpace
    exact List.all_eq_false.mpr ⟨c, hc, Bool.eq_false_iff.mp hblank⟩
  have hdot : ¬name = [DOT] := fun heq => absurd hlong (by rw [heq]; decide)
  have hdots : ¬name = [DOT, DOT] := fun heq => absurd hlong (by rw [heq]; decide)
  unfold isUnnamed
  rw [hnot, decide_eq_false hdot, decide_eq_false hdots]
  rfl

/-- A name without separators and dangerous units only has its invalid units replaced. -/
theorem sanitize_of_plain {name : Text}
    (hunits : ∀ c ∈ name, isSeparator c = false ∧ isDangerous c = false)
    (hends : EndsNot (fun c => isWhiteSpace (replaced invalidFileNameChars c)) name)
    (hnamed : isUnnamed name = false)
    (hreplaced : isUnnamed (name.map (replaced invalidFileNameChars)) = false)
    (hfits : name.length ≤ MAX_FILE_NAME_LENGTH) :
    sanitize invalidFileNameChars name = name.map (replaced invalidFileNameChars) := by
  have hlast : lastPart id name = name :=
    List.rtakeWhile_eq_self_iff.mpr fun c hc => by rw [id, (hunits c hc).1]; rfl
  have hfilter : (name.filter fun c => !isDangerous c) = name :=
    List.filter_eq_self.mpr fun c hc => by rw [(hunits c hc).2]; rfl
  have hclean : cleanName invalidFileNameChars name =
      name.map (replaced invalidFileNameChars) := by
    unfold cleanName cleaned
    rw [hlast]
    show (trimBy _ (name.filter fun c => !isDangerous c)).map _ = _
    rw [hfilter]
    exact congrArg _ (trimBy_of_endsNot hends)
  have hanswers : answersDefault invalidFileNameChars name = false := by
    unfold answersDefault
    rw [hlast, hclean, hnamed, hreplaced]
    unfold isUnnamed at hnamed
    rw [Bool.or_eq_false_iff, Bool.or_eq_false_iff] at hnamed
    rw [hnamed.1.1]
    rfl
  rw [sanitize_eq, hanswers, hclean, if_neg Bool.false_ne_true, List.length_map,
    if_neg (Nat.not_lt.mpr hfits)]

/-! ## Shortening -/

/-- How many units are kept behind the cut: those of the extension, where it fits. -/
def keptBehind (name : Text) : Nat :=
  if MAX_FILE_NAME_LENGTH ≤ (getExtension name).length then 0 else (getExtension name).length

def cutTo {α : Type} (behind : Nat) (name : List α) : List α :=
  name.take (MAX_FILE_NAME_LENGTH - behind) ++ name.drop (name.length - behind)

theorem getFileName_of_not_mem {name : Text} (h : SLASH ∉ name) : getFileName name = name := by
  rw [getFileName_eq, List.rtakeWhile_eq_self_iff]
  exact fun c hc => decide_eq_true fun heq => h (heq ▸ hc)

theorem shorten_eq {name : Text} (hslash : SLASH ∉ name) (h : MAX_FILE_NAME_LENGTH < name.length) :
    shorten name = cutTo (keptBehind name) name := by
  have hdrop : name.drop (name.length - 0) = [] := by simp
  unfold shorten keptBehind cutTo getFileNameWithoutExtension getExtension
  rw [getFileName_of_not_mem hslash]
  dsimp only
  cases hsplit : SplitText.splitLast DOT name with
  | none =>
    dsimp only
    rw [List.length_nil, if_neg (by decide), if_neg (by decide), hdrop]
  | some parts =>
    have ⟨stem, extension⟩ := parts
    have ⟨_, hname⟩ := SplitText.splitLast_eq_some hsplit
    cases extension with
    | nil =>
      have hlength : MAX_FILE_NAME_LENGTH ≤ stem.length := by
        rw [hname, List.length_append, List.length_singleton] at h
        omega
      dsimp only
      rw [List.length_nil, if_neg (by decide), if_neg (by decide), hdrop, hname, Nat.sub_zero,
        List.take_append_of_le_length hlength]
    | cons c rest =>
      dsimp only
      split
      · rw [hdrop, List.append_nil, Nat.sub_zero]
      · rename_i hfits
        have hlength : name.length = stem.length + (DOT :: c :: rest).length := by
          rw [hname, List.length_append]
        have hfront : MAX_FILE_NAME_LENGTH - (DOT :: c :: rest).length ≤ stem.length := by omega
        have hbehind : name.length - (DOT :: c :: rest).length = stem.length := by omega
        rw [hbehind, hname, List.take_append_of_le_length hfront, List.drop_left]

theorem keptBehind_lt (name : Text) : keptBehind name < MAX_FILE_NAME_LENGTH := by
  unfold keptBehind
  split
  · decide
  · omega

theorem dot_of_keptBehind {name : Text} (hslash : SLASH ∉ name) (h : keptBehind name ≠ 0) :
    name[name.length - keptBehind name]? = some DOT := by
  unfold keptBehind getExtension at h ⊢
  rw [getFileName_of_not_mem hslash] at h ⊢
  cases hsplit : SplitText.splitLast DOT name with
  | none =>
    rw [hsplit] at h
    exact absurd (ite_self _) h
  | some parts =>
    have ⟨stem, extension⟩ := parts
    have ⟨_, hname⟩ := SplitText.splitLast_eq_some hsplit
    rw [hsplit] at h
    cases extension with
    | nil => exact absurd (ite_self _) h
    | cons c rest =>
      dsimp only at h ⊢
      split
      · rename_i hlong
        exact absurd (if_pos hlong) h
      · have hlength : name.length - (DOT :: c :: rest).length = stem.length := by
          rw [hname, List.length_append]
          omega
        rw [hlength, hname]
        simp

theorem length_cutTo {α : Type} {behind : Nat} {name : List α}
    (hbehind : behind < MAX_FILE_NAME_LENGTH) (h : MAX_FILE_NAME_LENGTH < name.length) :
    (cutTo behind name).length = MAX_FILE_NAME_LENGTH := by
  unfold cutTo
  rw [List.length_append, List.length_take, List.length_drop]
  omega

theorem cutTo_map {α β : Type} (f : α → β) (behind : Nat) (name : List α) :
    cutTo behind (name.map f) = (cutTo behind name).map f := by
  unfold cutTo
  rw [List.map_append, List.map_take, List.map_drop, List.length_map]

theorem mem_of_mem_cutTo {α : Type} {behind : Nat} {name : List α} {a : α}
    (h : a ∈ cutTo behind name) : a ∈ name := by
  cases List.mem_append.mp h with
  | inl hfront => exact List.mem_of_mem_take hfront
  | inr hend => exact List.mem_of_mem_drop hend

theorem mem_cutTo_iff {α : Type} {behind : Nat} {name : List α} {a : α} :
    a ∈ cutTo behind name ↔ ∃ k, name[k]? = some a ∧
      (k < MAX_FILE_NAME_LENGTH - behind ∨ name.length - behind ≤ k) := by
  unfold cutTo
  rw [List.mem_append, List.mem_iff_getElem?, List.mem_iff_getElem?]
  constructor
  · intro h
    cases h with
    | inl hfront =>
      have ⟨k, hk⟩ := hfront
      rw [List.getElem?_take] at hk
      split at hk
      · rename_i hlt
        exact ⟨k, hk, .inl hlt⟩
      · cases hk
    | inr hend =>
      have ⟨k, hk⟩ := hend
      rw [List.getElem?_drop] at hk
      exact ⟨_, hk, .inr (Nat.le_add_right _ _)⟩
  · intro ⟨k, hk, hplace⟩
    cases hplace with
    | inl hlt => exact .inl ⟨k, by rw [List.getElem?_take, if_pos hlt]; exact hk⟩
    | inr hle =>
      refine .inr ⟨k - (name.length - behind), ?_⟩
      rw [List.getElem?_drop, Nat.add_sub_cancel' hle]
      exact hk

theorem head_cutTo {α : Type} {p : α → Bool} {behind : Nat} {name : List α}
    (h : ∀ a ∈ name.head?, p a = false) (hbehind : behind < MAX_FILE_NAME_LENGTH) :
    ∀ a ∈ (cutTo behind name).head?, p a = false := by
  intro a ha
  cases name with
  | nil => simp [cutTo] at ha
  | cons b rest =>
    have ⟨k, hk⟩ := Nat.exists_eq_succ_of_ne_zero (Nat.sub_ne_zero_of_lt hbehind)
    unfold cutTo at ha
    rw [hk, List.take_succ_cons] at ha
    exact h a ha

theorem endsNot_cutTo_iff {α : Type} {p : α → Bool} {behind : Nat} {name : List α}
    (h : EndsNot p name) (hbehind : behind < MAX_FILE_NAME_LENGTH)
    (hlong : MAX_FILE_NAME_LENGTH < name.length) : EndsNot p (cutTo behind name) ↔
      (behind = 0 → ∀ a, name[MAX_FILE_NAME_LENGTH - 1]? = some a → p a = false) := by
  unfold EndsNot
  rw [and_iff_right (head_cutTo h.1 hbehind)]
  unfold cutTo
  rw [List.getLast?_append, List.getLast?_drop]
  by_cases hzero : behind = 0
  · rw [hzero, Nat.sub_zero, Nat.sub_zero, if_pos (Nat.le_refl _), Option.none_or,
      List.getLast?_take, if_neg (by decide), List.getElem?_eq_getElem (by omega)]
    simp
  · rw [if_neg (by omega)]
    have hne : name ≠ [] := List.ne_nil_of_length_pos (by omega)
    rw [List.getLast?_eq_some_getLast hne, Option.some_or, ← List.getLast?_eq_some_getLast hne]
    exact iff_of_true h.2 fun hz => absurd hz hzero

end Sanitize

/-! ## Two neighbours -/

section Neighbours

variable {α : Type} {a b : α} {l : List α} {p : α → Bool}

/-- Both are in the list, next to each other, or neither is. -/
def Whole (a b : α) (l : List α) : Prop :=
  (∃ before after, l = before ++ a :: b :: after) ∨ (a ∉ l ∧ b ∉ l)

theorem Whole.iff (h : Whole a b l) : a ∈ l ↔ b ∈ l := by
  cases h with
  | inl hin =>
    have ⟨before, after, hl⟩ := hin
    rw [hl]
    simp
  | inr hout => exact iff_of_false hout.1 hout.2

theorem Whole.of_getElem? {k : Nat} (ha : l[k]? = some a) (hb : l[k + 1]? = some b) :
    Whole a b l := by
  have ⟨hk, hka⟩ := List.getElem?_eq_some_iff.mp ha
  have ⟨hk', hkb⟩ := List.getElem?_eq_some_iff.mp hb
  refine .inl ⟨l.take k, l.drop (k + 2), ?_⟩
  rw [← hka, ← hkb, ← List.drop_eq_getElem_cons hk', ← List.drop_eq_getElem_cons hk,
    List.take_append_drop]

theorem Whole.reverse (h : Whole a b l) : Whole b a l.reverse := by
  cases h with
  | inl hin =>
    have ⟨before, after, hl⟩ := hin
    refine .inl ⟨after.reverse, before.reverse, ?_⟩
    rw [hl]
    simp
  | inr hout => exact .inr ⟨mt List.mem_reverse.mp hout.2, mt List.mem_reverse.mp hout.1⟩

theorem Whole.filter (ha : p a = true) (hb : p b = true) (h : Whole a b l) :
    Whole a b (l.filter p) := by
  cases h with
  | inl hin =>
    have ⟨before, after, hl⟩ := hin
    refine .inl ⟨before.filter p, after.filter p, ?_⟩
    rw [hl, List.filter_append, List.filter_cons_of_pos ha, List.filter_cons_of_pos hb]
  | inr hout =>
    exact .inr ⟨fun h => hout.1 (List.mem_filter.mp h).1, fun h => hout.2 (List.mem_filter.mp h).1⟩

theorem Whole.dropWhile (ha : p a = false) (h : Whole a b l) : Whole a b (l.dropWhile p) := by
  cases h with
  | inl hin =>
    have ⟨before, after, hl⟩ := hin
    rw [hl, List.dropWhile_append]
    left
    split
    · exact ⟨[], after, List.dropWhile_cons_of_neg (by rw [ha]; exact Bool.false_ne_true)⟩
    · exact ⟨before.dropWhile p, after, rfl⟩
  | inr hout =>
    have hsub := (List.dropWhile_suffix p (l := l)).subset
    exact .inr ⟨fun h => hout.1 (hsub h), fun h => hout.2 (hsub h)⟩

theorem Whole.rdropWhile (hb : p b = false) (h : Whole a b l) : Whole a b (l.rdropWhile p) :=
  (h.reverse.dropWhile hb).reverse

theorem Whole.takeWhile (hnodup : l.Nodup) (ha : p a = true) (hb : p b = true)
    (h : Whole a b l) : Whole a b (l.takeWhile p) := by
  cases h with
  | inl hin =>
    have ⟨before, after, hl⟩ := hin
    rw [hl, List.takeWhile_append]
    split
    · left
      exact ⟨before, after.takeWhile p, by
        rw [List.takeWhile_cons_of_pos ha, List.takeWhile_cons_of_pos hb]⟩
    · -- the list ends before them
      right
      rw [hl] at hnodup
      have hdisjoint := List.disjoint_of_nodup_append hnodup
      have hsub := (List.takeWhile_prefix p (l := before)).subset
      exact ⟨fun h => hdisjoint (hsub h) (by simp), fun h => hdisjoint (hsub h) (by simp)⟩
  | inr hout =>
    have hsub := (List.takeWhile_prefix p (l := l)).subset
    exact .inr ⟨fun h => hout.1 (hsub h), fun h => hout.2 (hsub h)⟩

theorem Whole.rtakeWhile (hnodup : l.Nodup) (ha : p a = true) (hb : p b = true)
    (h : Whole a b l) : Whole a b (l.rtakeWhile p) :=
  (h.reverse.takeWhile (List.nodup_reverse.mpr hnodup) hb ha).reverse

/-- Cleaning keeps two neighbours that it does not touch, or leaves out both. -/
theorem Whole.cleaned {unit : α → UInt16} {invalidFileNameChars : List UInt16} {name : List α}
    (hnodup : name.Nodup) (hseparator : isSeparator (unit a) = false ∧ isSeparator (unit b) = false)
    (hdangerous : isDangerous (unit a) = false ∧ isDangerous (unit b) = false)
    (hblank : isWhiteSpace (replaced invalidFileNameChars (unit a)) = false ∧
      isWhiteSpace (replaced invalidFileNameChars (unit b)) = false)
    (h : Whole a b name) : Whole a b (cleaned unit invalidFileNameChars name) := by
  have hlast : Whole a b (lastPart unit name) :=
    h.rtakeWhile hnodup (by rw [hseparator.1]; rfl) (by rw [hseparator.2]; rfl)
  have hfiltered := hlast.filter (p := fun a => !isDangerous (unit a)) (by rw [hdangerous.1]; rfl)
    (by rw [hdangerous.2]; rfl)
  have htrimmed := hfiltered.dropWhile
    (p := fun a => isWhiteSpace (replaced invalidFileNameChars (unit a))) hblank.1
  exact htrimmed.rdropWhile hblank.2

theorem getElem?_eq_iff {k n : Nat} (hnodup : l.Nodup) (h : l[n]? = some a) :
    l[k]? = some a ↔ k = n := by
  have hn : n < l.length := (List.getElem?_eq_some_iff.mp h).1
  rw [← h, eq_comm, List.getElem?_inj hn hnodup, eq_comm]

/-- Of two neighbours the cut keeps both or neither, unless it goes between them. -/
theorem Whole.cutTo {behind : Nat} (hnodup : l.Nodup) (hlong : MAX_FILE_NAME_LENGTH < l.length)
    (hbehind : behind < MAX_FILE_NAME_LENGTH)
    (hend : behind ≠ 0 → l[l.length - behind]? ≠ some b) (h : Whole a b l) :
    (a ∈ cutTo behind l ↔
      b ∈ cutTo behind l ∨ l[MAX_FILE_NAME_LENGTH - behind - 1]? = some a) ∧
    (b ∈ cutTo behind l → l[MAX_FILE_NAME_LENGTH - behind - 1]? ≠ some a) := by
  cases h with
  | inl hin =>
    have ⟨before, after, hl⟩ := hin
    have ha : l[before.length]? = some a := by rw [hl]; simp
    have hb : l[before.length + 1]? = some b := by rw [hl]; simp
    have hinside : before.length + 1 < l.length := (List.getElem?_eq_some_iff.mp hb).1
    have hindexA : a ∈ FileNameSanitizer.cutTo behind l ↔
        before.length < MAX_FILE_NAME_LENGTH - behind ∨ l.length - behind ≤ before.length := by
      rw [mem_cutTo_iff]
      simp only [getElem?_eq_iff hnodup ha, exists_eq_left]
    have hindexB : b ∈ FileNameSanitizer.cutTo behind l ↔
        before.length + 1 < MAX_FILE_NAME_LENGTH - behind ∨
          l.length - behind ≤ before.length + 1 := by
      rw [mem_cutTo_iff]
      simp only [getElem?_eq_iff hnodup hb, exists_eq_left]
    have hfirst : behind ≠ 0 → l.length - behind ≠ before.length + 1 :=
      fun h heq => hend h ((getElem?_eq_iff hnodup hb).mpr heq)
    rw [Ne, hindexA, hindexB, getElem?_eq_iff hnodup ha]
    omega
  | inr hout =>
    have hA : a ∉ FileNameSanitizer.cutTo behind l := mt mem_of_mem_cutTo hout.1
    have hB : b ∉ FileNameSanitizer.cutTo behind l := mt mem_of_mem_cutTo hout.2
    have hplace : l[MAX_FILE_NAME_LENGTH - behind - 1]? ≠ some a :=
      fun h => hout.1 (List.mem_of_getElem? h)
    simp [hA, hB, hplace]

end Neighbours

/-! ## Surrogates -/

theorem of_isSurrogate {c : UInt16} (h : isHighSurrogate c = true ∨ isLowSurrogate c = true) :
    0xD800 ≤ c.toNat ∧ c.toNat ≤ 0xDFFF := by
  unfold isHighSurrogate isLowSurrogate at h
  simp only [Bool.and_eq_true, decide_eq_true_eq, UInt16.le_iff_toNat_le] at h
  have hnats : (0xD800 : UInt16).toNat = 0xD800 ∧ (0xDBFF : UInt16).toNat = 0xDBFF ∧
      (0xDC00 : UInt16).toNat = 0xDC00 ∧ (0xDFFF : UInt16).toNat = 0xDFFF := by decide
  omega

theorem plain_of_surrogate {c : UInt16} (h : 0xD800 ≤ c.toNat ∧ c.toNat ≤ 0xDFFF) :
    isSeparator c = false ∧ isDangerous c = false ∧ isWhiteSpace c = false ∧ c ≠ DOT := by
  have hne : ∀ d : UInt16, d.toNat < 0xD800 → ¬c = d := by
    intro d hd heq
    rw [heq] at h
    omega
  have hnle : ∀ d : UInt16, d.toNat < 0xD800 → ¬c ≤ d := by
    intro d hd hle
    rw [UInt16.le_iff_toNat_le] at hle
    omega
  unfold isSeparator isDangerous isWhiteSpace
  simp only [decide_eq_false (hne SLASH (by decide)), decide_eq_false (hne BACKSLASH (by decide)),
    decide_eq_false (hnle 0x1F (by decide)), decide_eq_false (hne 0x7F (by decide)),
    decide_eq_false (hne 0x22 (by decide)), decide_eq_false (hne 0x3B (by decide)),
    decide_eq_false (hnle 0x0D (by decide)), decide_eq_false (hne 0x20 (by decide)),
    decide_eq_false (hne 0x85 (by decide)), decide_eq_false (hne 0xA0 (by decide)),
    decide_eq_false (hne 0x1680 (by decide)), decide_eq_false (hnle 0x200A (by decide)),
    decide_eq_false (hne 0x2028 (by decide)), decide_eq_false (hne 0x2029 (by decide)),
    decide_eq_false (hne 0x202F (by decide)), decide_eq_false (hne 0x205F (by decide)),
    decide_eq_false (hne 0x3000 (by decide)), Bool.or_false, Bool.and_false, true_and]
  exact hne DOT (by decide)

theorem plain_of_replaced_surrogate {c : UInt16} (h : 0xD800 ≤ c.toNat ∧ c.toNat ≤ 0xDFFF)
    (invalidFileNameChars : List UInt16) :
    isWhiteSpace (replaced invalidFileNameChars c) = false ∧
      replaced invalidFileNameChars c ≠ DOT := by
  unfold replaced
  split
  · decide
  · exact (plain_of_surrogate h).2.2

/-- This surrogate pair stands at this place. -/
def IsPairAt (fileName : Text) (i : Nat) (high low : UInt16) : Prop :=
  fileName[i]? = some high ∧ fileName[i + 1]? = some low ∧
    isHighSurrogate high = true ∧ isLowSurrogate low = true

/-! ## The places that are kept -/

section Kept

variable (invalidFileNameChars : List UInt16) (fileName : Text)

/-- The units of the cleaned name with their places in the file name. -/
def places : List (UInt16 × Nat) := cleaned Prod.fst invalidFileNameChars fileName.zipIdx

def isCut : Bool :=
  !answersDefault invalidFileNameChars fileName &&
    MAX_FILE_NAME_LENGTH < (cleanName invalidFileNameChars fileName).length

/-- The units that make up the result, where it is not the default name. -/
def kept : List (UInt16 × Nat) :=
  if answersDefault invalidFileNameChars fileName then []
  else if isCut invalidFileNameChars fileName then
    cutTo (keptBehind (cleanName invalidFileNameChars fileName))
      (places invalidFileNameChars fileName)
  else places invalidFileNameChars fileName

/-- The unit at this place is in the result, as it is. -/
def Copied (i : Nat) : Prop :=
  ∃ c, (c, i) ∈ kept invalidFileNameChars fileName ∧ c ∉ invalidFileNameChars

variable {invalidFileNameChars fileName}

theorem map_places : (places invalidFileNameChars fileName).map
    (fun u => replaced invalidFileNameChars u.1) = cleanName invalidFileNameChars fileName := by
  unfold places cleanName
  have hmap := cleaned_map Prod.fst invalidFileNameChars Prod.fst id (fun _ => rfl)
    fileName.zipIdx
  rw [List.zipIdx_map_fst] at hmap
  rw [hmap, List.map_map]
  rfl

theorem length_places : (places invalidFileNameChars fileName).length =
    (cleanName invalidFileNameChars fileName).length := by
  rw [← map_places, List.length_map]

theorem getElem?_of_mem_places {u : UInt16 × Nat}
    (h : u ∈ places invalidFileNameChars fileName) : fileName[u.2]? = some u.1 :=
  List.mem_zipIdx_iff_getElem?.mp (cleaned_sublist.subset h)

theorem nodup_zipIdx : fileName.zipIdx.Nodup :=
  List.Nodup.of_map Prod.snd (by rw [List.zipIdx_map_snd]; exact List.nodup_range' 1 Nat.one_pos)

theorem map_kept (h : answersDefault invalidFileNameChars fileName = false) :
    (kept invalidFileNameChars fileName).map (fun u => replaced invalidFileNameChars u.1) =
      sanitize invalidFileNameChars fileName := by
  rw [sanitize_eq]
  unfold kept isCut
  rw [h, Bool.not_false, Bool.true_and, if_neg Bool.false_ne_true, if_neg Bool.false_ne_true]
  by_cases hlong : MAX_FILE_NAME_LENGTH < (cleanName invalidFileNameChars fileName).length
  · rw [if_pos (decide_eq_true hlong), if_pos hlong, shorten_eq slash_not_mem_cleanName hlong,
      ← cutTo_map, map_places]
  · rw [if_neg (by rw [decide_eq_false hlong]; exact Bool.false_ne_true), if_neg hlong, map_places]

/-! ## What is promised -/

/-- `char.IsControl`. -/
def isControl (c : UInt16) : Bool :=
  c ≤ 0x1F || (0x7F ≤ c && c ≤ 0x9F)

variable (invalidFileNameChars fileName) in
structure Sanitized (result : Text) : Prop where
  named : result ≠ [] ∧ result ≠ [DOT] ∧ result ≠ [DOT, DOT]
  fits : result.length ≤ MAX_FILE_NAME_LENGTH
  units : ∀ c ∈ result, c ≠ SLASH ∧ c ≠ BACKSLASH ∧ c ≠ 0x22 ∧ c ≠ 0x3B ∧ isControl c = false
  ends : EndsNot isWhiteSpace result
  pairs : ∀ i high low, IsPairAt fileName i high low →
    (Copied invalidFileNameChars fileName i ↔ Copied invalidFileNameChars fileName (i + 1))
  fixed : sanitize invalidFileNameChars result = result

variable (invalidFileNameChars fileName) in
/-- The unit of this place is the last one before the cut. -/
def EndsAt (i : Nat) : Prop :=
  isCut invalidFileNameChars fileName = true ∧ ∃ c, c ∉ invalidFileNameChars ∧
    (places invalidFileNameChars fileName)[MAX_FILE_NAME_LENGTH -
      keptBehind (cleanName invalidFileNameChars fileName) - 1]? = some (c, i)

variable (invalidFileNameChars fileName) in
/-- The names that come out as promised. -/
structure Orderly : Prop where
  default_free : answersDefault invalidFileNameChars fileName = true →
    ∀ c ∈ defaultFileName, c ∉ invalidFileNameChars
  -- the expression knows the control characters of ASCII, not those from U+0080 on
  controls : ∀ i c, fileName[i]? = some c → 0x80 ≤ c → c ≤ 0x9F →
    ¬Copied invalidFileNameChars fileName i
  -- the name is not trimmed again after the cut
  blank : isCut invalidFileNameChars fileName = true →
    keptBehind (cleanName invalidFileNameChars fileName) = 0 →
    ∀ c, (cleanName invalidFileNameChars fileName)[MAX_FILE_NAME_LENGTH - 1]? = some c →
      isWhiteSpace c = false
  -- it counts units, not characters
  pairs : ∀ i high low, IsPairAt fileName i high low → ¬EndsAt invalidFileNameChars fileName i
  alike : ∀ i high low, IsPairAt fileName i high low →
    (low, i + 1) ∈ kept invalidFileNameChars fileName →
      (high ∈ invalidFileNameChars ↔ low ∈ invalidFileNameChars)

theorem kept_subset : ∀ u ∈ kept invalidFileNameChars fileName,
    u ∈ places invalidFileNameChars fileName := by
  intro u hu
  unfold kept at hu
  split at hu
  · cases hu
  · split at hu
    · exact mem_of_mem_cutTo hu
    · exact hu

theorem copied_iff {i : Nat} {c : UInt16} (h : fileName[i]? = some c) :
    Copied invalidFileNameChars fileName i ↔
      (c, i) ∈ kept invalidFileNameChars fileName ∧ c ∉ invalidFileNameChars := by
  constructor
  · intro ⟨d, hd, hvalid⟩
    have hunit := getElem?_of_mem_places (kept_subset _ hd)
    rw [h] at hunit
    rw [Option.some.inj hunit]
    exact ⟨hd, hvalid⟩
  · intro ⟨hc, hvalid⟩
    exact ⟨c, hc, hvalid⟩

theorem whole_places {i : Nat} {high low : UInt16} (h : IsPairAt fileName i high low) :
    Whole (high, i) (low, i + 1) (places invalidFileNameChars fileName) := by
  have ⟨hhigh, hlow, hsurrogates⟩ := h
  have hboundsHigh := of_isSurrogate (.inl hsurrogates.1)
  have hboundsLow := of_isSurrogate (.inr hsurrogates.2)
  have hplainHigh := plain_of_surrogate hboundsHigh
  have hplainLow := plain_of_surrogate hboundsLow
  have hin : Whole (high, i) (low, i + 1) fileName.zipIdx :=
    Whole.of_getElem? (k := i) (by rw [List.getElem?_zipIdx, hhigh, Nat.zero_add]; rfl)
      (by rw [List.getElem?_zipIdx, hlow, Nat.zero_add]; rfl)
  exact hin.cleaned nodup_zipIdx ⟨hplainHigh.1, hplainLow.1⟩ ⟨hplainHigh.2.1, hplainLow.2.1⟩
    ⟨(plain_of_replaced_surrogate hboundsHigh _).1, (plain_of_replaced_surrogate hboundsLow _).1⟩

theorem dot_of_low_places {i : Nat} {high low : UInt16} (h : IsPairAt fileName i high low)
    (hbehind : keptBehind (cleanName invalidFileNameChars fileName) ≠ 0) :
    (places invalidFileNameChars fileName)[(places invalidFileNameChars fileName).length -
      keptBehind (cleanName invalidFileNameChars fileName)]? ≠ some (low, i + 1) := by
  intro heq
  have hdot := dot_of_keptBehind slash_not_mem_cleanName hbehind
  rw [← map_places, List.getElem?_map, List.length_map, map_places, heq] at hdot
  exact (plain_of_replaced_surrogate (of_isSurrogate (.inr h.2.2.2)) _).2 (Option.some.inj hdot)

/-- The cut is the only step that can keep one half of a pair. -/
theorem kept_pair {i : Nat} {high low : UInt16} (h : IsPairAt fileName i high low) :
    ((high, i) ∈ kept invalidFileNameChars fileName ↔
      (low, i + 1) ∈ kept invalidFileNameChars fileName ∨
        (isCut invalidFileNameChars fileName = true ∧
          (places invalidFileNameChars fileName)[MAX_FILE_NAME_LENGTH -
            keptBehind (cleanName invalidFileNameChars fileName) - 1]? = some (high, i))) ∧
    ((low, i + 1) ∈ kept invalidFileNameChars fileName →
      ¬(isCut invalidFileNameChars fileName = true ∧
        (places invalidFileNameChars fileName)[MAX_FILE_NAME_LENGTH -
          keptBehind (cleanName invalidFileNameChars fileName) - 1]? = some (high, i))) := by
  have hwhole := @whole_places invalidFileNameChars fileName _ _ _ h
  have hnodup : (places invalidFileNameChars fileName).Nodup := nodup_zipIdx.sublist cleaned_sublist
  unfold kept
  by_cases hanswers : answersDefault invalidFileNameChars fileName = true
  · rw [if_pos hanswers]
    unfold isCut
    simp [hanswers]
  · rw [if_neg hanswers]
    by_cases hcut : isCut invalidFileNameChars fileName = true
    · rw [if_pos hcut]
      have hlong : MAX_FILE_NAME_LENGTH < (places invalidFileNameChars fileName).length := by
        unfold isCut at hcut
        rw [length_places]
        exact of_decide_eq_true (Bool.and_eq_true _ _ ▸ hcut).2
      have hsides := hwhole.cutTo hnodup hlong (keptBehind_lt _) (dot_of_low_places h)
      simp only [hcut, true_and]
      exact hsides
    · rw [if_neg hcut]
      simp only [hcut, Bool.false_eq_true, false_and, or_false, not_false_eq_true, implies_true,
        and_true]
      exact hwhole.iff

/-- Both halves of a pair are copied, or neither, unless the cut or the set parts them. -/
theorem copied_pair_iff {i : Nat} {high low : UInt16} (h : IsPairAt fileName i high low) :
    (Copied invalidFileNameChars fileName i ↔ Copied invalidFileNameChars fileName (i + 1)) ↔
      ¬EndsAt invalidFileNameChars fileName i ∧
        ((low, i + 1) ∈ kept invalidFileNameChars fileName →
          (high ∈ invalidFileNameChars ↔ low ∈ invalidFileNameChars)) := by
  have hsides := @kept_pair invalidFileNameChars fileName _ _ _ h
  have hends : EndsAt invalidFileNameChars fileName i ↔
      (isCut invalidFileNameChars fileName = true ∧
        (places invalidFileNameChars fileName)[MAX_FILE_NAME_LENGTH -
          keptBehind (cleanName invalidFileNameChars fileName) - 1]? = some (high, i)) ∧
        high ∉ invalidFileNameChars := by
    constructor
    · intro ⟨hcut, c, hvalid, hplace⟩
      have hunit := getElem?_of_mem_places (List.mem_of_getElem? hplace)
      rw [h.1] at hunit
      rw [Option.some.inj hunit]
      exact ⟨⟨hcut, hplace⟩, hvalid⟩
    · intro ⟨⟨hcut, hplace⟩, hvalid⟩
      exact ⟨hcut, high, hvalid, hplace⟩
  rw [copied_iff h.1, copied_iff h.2.1, hends]
  by_cases hhigh : high ∈ invalidFileNameChars
  · simp only [hhigh, not_true_eq_false, and_false, false_iff, not_and, not_not, not_false_eq_true,
      true_and, true_iff]
  · simp only [hhigh, not_false_eq_true, and_true, false_iff]
    rw [hsides.1]
    by_cases hlow : (low, i + 1) ∈ kept invalidFileNameChars fileName
    · simp [hlow, hsides.2 hlow]
    · simp [hlow]

theorem sanitize_cases (h : answersDefault invalidFileNameChars fileName = false) :
    (isCut invalidFileNameChars fileName = false ∧
      (cleanName invalidFileNameChars fileName).length ≤ MAX_FILE_NAME_LENGTH ∧
      sanitize invalidFileNameChars fileName = cleanName invalidFileNameChars fileName) ∨
    (isCut invalidFileNameChars fileName = true ∧
      MAX_FILE_NAME_LENGTH < (cleanName invalidFileNameChars fileName).length ∧
      sanitize invalidFileNameChars fileName =
        cutTo (keptBehind (cleanName invalidFileNameChars fileName))
          (cleanName invalidFileNameChars fileName)) := by
  have hkept := map_kept h
  unfold kept at hkept
  rw [h, if_neg Bool.false_ne_true] at hkept
  by_cases hlong : MAX_FILE_NAME_LENGTH < (cleanName invalidFileNameChars fileName).length
  · have hcut : isCut invalidFileNameChars fileName = true := by
      unfold isCut
      rw [h, decide_eq_true hlong]
      rfl
    rw [if_pos hcut, ← cutTo_map, map_places] at hkept
    exact .inr ⟨hcut, hlong, hkept.symm⟩
  · have hcut : isCut invalidFileNameChars fileName = false := by
      unfold isCut
      rw [decide_eq_false hlong, Bool.and_false]
    rw [hcut, if_neg Bool.false_ne_true, map_places] at hkept
    exact .inl ⟨hcut, Nat.le_of_not_lt hlong, hkept.symm⟩

theorem length_sanitize_le (h : answersDefault invalidFileNameChars fileName = false) :
    (sanitize invalidFileNameChars fileName).length ≤ MAX_FILE_NAME_LENGTH := by
  cases sanitize_cases h with
  | inl hwhole => exact hwhole.2.2 ▸ hwhole.2.1
  | inr hcut =>
    rw [hcut.2.2, length_cutTo (keptBehind_lt _) hcut.2.1]

theorem units_of_mem_sanitize (h : answersDefault invalidFileNameChars fileName = false)
    {c : UInt16} (hc : c ∈ sanitize invalidFileNameChars fileName) :
    isSeparator c = false ∧ isDangerous c = false ∧ replaced invalidFileNameChars c = c := by
  cases sanitize_cases h with
  | inl hwhole => exact units_of_mem_cleanName (hwhole.2.2 ▸ hc)
  | inr hcut => exact units_of_mem_cleanName (mem_of_mem_cutTo (hcut.2.2 ▸ hc))

theorem endsNot_sanitize_iff (h : answersDefault invalidFileNameChars fileName = false) :
    EndsNot isWhiteSpace (sanitize invalidFileNameChars fileName) ↔
      (isCut invalidFileNameChars fileName = true →
        keptBehind (cleanName invalidFileNameChars fileName) = 0 →
        ∀ c, (cleanName invalidFileNameChars fileName)[MAX_FILE_NAME_LENGTH - 1]? = some c →
          isWhiteSpace c = false) := by
  cases sanitize_cases h with
  | inl hwhole =>
    rw [hwhole.1, hwhole.2.2]
    exact iff_of_true endsNot_cleanName fun hcut => absurd hcut Bool.false_ne_true
  | inr hcut =>
    rw [hcut.2.2, endsNot_cutTo_iff endsNot_cleanName (keptBehind_lt _) hcut.2.1]
    exact ⟨fun hlast _ => hlast, fun hlast => hlast hcut.1⟩

/-- The name is not lost: one that is not blank, a dot or two dots stays so. -/
theorem isUnnamed_sanitize (h : answersDefault invalidFileNameChars fileName = false) :
    isUnnamed (sanitize invalidFileNameChars fileName) = false := by
  have hclean : isUnnamed (cleanName invalidFileNameChars fileName) = false :=
    ((Bool.or_eq_false_iff ..).mp h).2
  cases sanitize_cases h with
  | inl hwhole => rw [hwhole.2.2, hclean]
  | inr hcut =>
    have hlength := length_cutTo (keptBehind_lt (cleanName invalidFileNameChars fileName)) hcut.2.1
    have hne : cutTo (keptBehind (cleanName invalidFileNameChars fileName))
        (cleanName invalidFileNameChars fileName) ≠ [] :=
      List.ne_nil_of_length_pos (by rw [hlength]; decide)
    have ⟨c, rest, hcons⟩ := List.exists_cons_of_ne_nil hne
    have hhead : isWhiteSpace c = false :=
      head_cutTo endsNot_cleanName.1 (keptBehind_lt _) c (by rw [hcons]; rfl)
    rw [hcut.2.2]
    exact isUnnamed_of_mem (hcons ▸ List.mem_cons_self) hhead (by rw [hlength]; decide)

/-- A name that is not the default one keeps its control characters from U+0080 on, no others. -/
theorem controls_iff (h : answersDefault invalidFileNameChars fileName = false) :
    (∀ c ∈ sanitize invalidFileNameChars fileName, isControl c = false) ↔
      ∀ i c, fileName[i]? = some c → 0x80 ≤ c → c ≤ 0x9F →
        ¬Copied invalidFileNameChars fileName i := by
  have hmap := map_kept h
  constructor
  · intro hnone i c hunit hfirst hlast hcopied
    have ⟨hkept, hvalid⟩ := (copied_iff hunit).mp hcopied
    have hmem : c ∈ sanitize invalidFileNameChars fileName := by
      rw [← hmap]
      exact List.mem_map.mpr ⟨(c, i), hkept, if_neg hvalid⟩
    have hnot := hnone c hmem
    unfold isControl at hnot
    simp only [Bool.or_eq_false_iff, Bool.and_eq_false_iff, decide_eq_false_iff_not,
      UInt16.le_iff_toNat_le] at hnot hfirst hlast
    have hnats : (0x7F : UInt16).toNat = 0x7F ∧ (0x80 : UInt16).toNat = 0x80 := by decide
    omega
  · intro hnone c hc
    have hunits := units_of_mem_sanitize h hc
    rw [← hmap] at hc
    have ⟨⟨d, i⟩, hkept, hd⟩ := List.mem_map.mp hc
    by_cases hvalid : d ∈ invalidFileNameChars
    · rw [← hd, show replaced invalidFileNameChars d = UNDERSCORE from if_pos hvalid]
      decide
    · rw [show replaced invalidFileNameChars d = d from if_neg hvalid] at hd
      have hunit := getElem?_of_mem_places (kept_subset _ hkept)
      have hnot := hnone i d hunit
      rw [hd] at hnot hkept
      have hdangerous := hunits.2.1
      rw [Bool.eq_false_iff]
      intro hcontrol
      unfold isControl at hcontrol
      unfold isDangerous at hdangerous
      simp only [Bool.or_eq_false_iff, Bool.or_eq_true, Bool.and_eq_true, decide_eq_true_eq,
        decide_eq_false_iff_not, UInt16.le_iff_toNat_le, ← UInt16.toNat_inj] at hcontrol hdangerous
      have hnats : (0x7F : UInt16).toNat = 0x7F ∧ (0x80 : UInt16).toNat = 0x80 := by decide
      refine hnot ?_ ?_ ⟨c, hkept, hd ▸ hvalid⟩
      · rw [UInt16.le_iff_toNat_le]
        omega
      · rw [UInt16.le_iff_toNat_le]
        omega

theorem units_defaultFileName : ∀ c ∈ defaultFileName,
    isSeparator c = false ∧ isDangerous c = false ∧ isControl c = false ∧
      isWhiteSpace c = false := by
  have hall : (defaultFileName.all fun c =>
      !(isSeparator c || isDangerous c || isControl c || isWhiteSpace c)) = true := by decide
  intro c hc
  have hunit := List.all_eq_true.mp hall c hc
  simp only [Bool.not_eq_true', Bool.or_eq_false_iff] at hunit
  exact ⟨hunit.1.1.1, hunit.1.1.2, hunit.1.2, hunit.2⟩

theorem ends_defaultFileName : EndsNot isWhiteSpace defaultFileName :=
  ⟨fun c hc => (units_defaultFileName c (List.mem_of_mem_head? hc)).2.2.2,
    fun c hc => (units_defaultFileName c (List.mem_of_getLast? hc)).2.2.2⟩

/-- What the separators and the dangerous units are, one by one. -/
theorem ne_of_not_dangerous {c : UInt16} (hseparator : isSeparator c = false)
    (hdangerous : isDangerous c = false) :
    c ≠ SLASH ∧ c ≠ BACKSLASH ∧ c ≠ 0x22 ∧ c ≠ 0x3B := by
  unfold isSeparator at hseparator
  unfold isDangerous at hdangerous
  simp only [Bool.or_eq_false_iff, decide_eq_false_iff_not] at hseparator hdangerous
  exact ⟨hseparator.1, hseparator.2, hdangerous.1.2, hdangerous.2⟩

theorem defaultFileName_fixed_iff : sanitize invalidFileNameChars defaultFileName =
    defaultFileName ↔ ∀ c ∈ defaultFileName, c ∉ invalidFileNameChars := by
  have hunits : ∀ c ∈ defaultFileName, isSeparator c = false ∧ isDangerous c = false :=
    fun c hc => ⟨(units_defaultFileName c hc).1, (units_defaultFileName c hc).2.1⟩
  have hblank : ∀ c ∈ defaultFileName,
      isWhiteSpace (replaced invalidFileNameChars c) = false := by
    intro c hc
    unfold replaced
    split
    · decide
    · exact (units_defaultFileName c hc).2.2.2
  have hreplaced : isUnnamed (defaultFileName.map (replaced invalidFileNameChars)) = false := by
    have hmem : replaced invalidFileNameChars 0x75 ∈
        defaultFileName.map (replaced invalidFileNameChars) :=
      List.mem_map_of_mem (by decide)
    exact isUnnamed_of_mem hmem (hblank _ (by decide)) (by rw [List.length_map]; decide)
  rw [sanitize_of_plain hunits ⟨fun c hc => hblank c (List.mem_of_mem_head? hc),
    fun c hc => hblank c (List.mem_of_getLast? hc)⟩ (by decide) hreplaced (by decide)]
  constructor
  · intro hsame c hc hinvalid
    have hfixed : replaced invalidFileNameChars c = c :=
      List.map_eq_map_iff.mp (hsame.trans (List.map_id _).symm) c hc
    rw [show replaced invalidFileNameChars c = UNDERSCORE from if_pos hinvalid] at hfixed
    exact absurd (hfixed ▸ hc) (by decide)
  · intro hfree
    exact (List.map_congr_left fun c hc => if_neg (hfree c hc)).trans (List.map_id _)

variable (invalidFileNameChars) in
/-- There is nothing to sanitize in the name. -/
structure Plain (name : Text) : Prop where
  units : ∀ c ∈ name, isSeparator c = false ∧ isDangerous c = false ∧
    (c ∈ invalidFileNameChars → c = UNDERSCORE)
  ends : EndsNot isWhiteSpace name
  named : isUnnamed name = false
  fits : name.length ≤ MAX_FILE_NAME_LENGTH

theorem replaced_eq_self_iff {c : UInt16} : replaced invalidFileNameChars c = c ↔
    (c ∈ invalidFileNameChars → c = UNDERSCORE) := by
  unfold replaced
  split
  · rename_i hinvalid
    exact ⟨fun h _ => h.symm, fun h => (h hinvalid).symm⟩
  · rename_i hvalid
    exact ⟨fun _ h => absurd h hvalid, fun _ => rfl⟩

theorem Plain.sanitize_eq {name : Text} (h : Plain invalidFileNameChars name) :
    sanitize invalidFileNameChars name = name := by
  have hreplaced : ∀ c ∈ name, replaced invalidFileNameChars c = c :=
    fun c hc => replaced_eq_self_iff.mpr (h.units c hc).2.2
  have hmap : name.map (replaced invalidFileNameChars) = name :=
    (List.map_congr_left hreplaced).trans (List.map_id _)
  have hends : EndsNot (fun c => isWhiteSpace (replaced invalidFileNameChars c)) name := by
    refine ⟨fun c hc => ?_, fun c hc => ?_⟩
    · show isWhiteSpace (replaced _ c) = false
      rw [hreplaced c (List.mem_of_mem_head? hc)]
      exact h.ends.1 c hc
    · show isWhiteSpace (replaced _ c) = false
      rw [hreplaced c (List.mem_of_getLast? hc)]
      exact h.ends.2 c hc
  rw [sanitize_of_plain (fun c hc => ⟨(h.units c hc).1, (h.units c hc).2.1⟩) hends h.named
    (hmap.symm ▸ h.named) h.fits, hmap]

theorem plain_sanitize (h : answersDefault invalidFileNameChars fileName = false)
    (hends : EndsNot isWhiteSpace (sanitize invalidFileNameChars fileName)) :
    Plain invalidFileNameChars (sanitize invalidFileNameChars fileName) where
  units _ hc := ⟨(units_of_mem_sanitize h hc).1, (units_of_mem_sanitize h hc).2.1,
    replaced_eq_self_iff.mp (units_of_mem_sanitize h hc).2.2⟩
  ends := hends
  named := isUnnamed_sanitize h
  fits := length_sanitize_le h

theorem plain_defaultFileName_iff : Plain invalidFileNameChars defaultFileName ↔
    ∀ c ∈ defaultFileName, c ∉ invalidFileNameChars := by
  constructor
  · intro hplain c hc hinvalid
    have hunderscore := (hplain.units c hc).2.2 hinvalid
    rw [hunderscore] at hc
    exact absurd hc (by decide)
  · intro hfree
    exact {
      units := fun c hc => ⟨(units_defaultFileName c hc).1, (units_defaultFileName c hc).2.1,
        fun h => absurd h (hfree c hc)⟩
      ends := ends_defaultFileName
      named := by decide
      fits := by decide }

theorem length_cleanName_le :
    (cleanName invalidFileNameChars fileName).length ≤ fileName.length := by
  unfold cleanName
  rw [List.length_map]
  exact cleaned_sublist.length_le

/-- Sanitizing leaves exactly the plain names as they are. -/
theorem sanitize_eq_self_iff {name : Text} :
    sanitize invalidFileNameChars name = name ↔ Plain invalidFileNameChars name := by
  refine ⟨fun hsame => ?_, Plain.sanitize_eq⟩
  by_cases hanswers : answersDefault invalidFileNameChars name = true
  · have hdefault := hsame
    rw [sanitize_eq, if_pos hanswers] at hdefault
    rw [← hdefault] at hsame ⊢
    exact plain_defaultFileName_iff.mpr (defaultFileName_fixed_iff.mp hsame)
  · have hname := Bool.eq_false_iff.mpr hanswers
    -- a name that is cut does not come out as it was
    have hshort : name.length ≤ MAX_FILE_NAME_LENGTH := hsame ▸ length_sanitize_le hname
    have hends := (endsNot_sanitize_iff hname).mpr fun hcut => by
      have hlong := (Bool.and_eq_true_iff.mp hcut).2
      have hle := @length_cleanName_le invalidFileNameChars name
      have := of_decide_eq_true hlong
      omega
    exact hsame ▸ plain_sanitize hname hends

theorem not_copied_of_default (h : answersDefault invalidFileNameChars fileName = true) (i : Nat) :
    ¬Copied invalidFileNameChars fileName i := by
  intro ⟨c, hc, _⟩
  unfold kept at hc
  rw [if_pos h] at hc
  cases hc

theorem sanitized_default_iff (h : answersDefault invalidFileNameChars fileName = true) :
    Sanitized invalidFileNameChars fileName (sanitize invalidFileNameChars fileName) ↔
      Orderly invalidFileNameChars fileName := by
  have hcopied := not_copied_of_default h
  have hcut : ¬isCut invalidFileNameChars fileName = true := by
    unfold isCut
    rw [h]
    exact Bool.false_ne_true
  rw [sanitize_eq, if_pos h]
  constructor
  · intro hsanitized
    exact {
      default_free := fun _ => defaultFileName_fixed_iff.mp hsanitized.fixed
      controls := fun i _ _ _ _ => hcopied i
      blank := fun h => absurd h hcut
      pairs := fun _ _ _ _ hends => hcut hends.1
      alike := fun _ _ _ _ hkept => by
        unfold kept at hkept
        rw [if_pos h] at hkept
        cases hkept }
  · intro horderly
    exact {
      named := by decide
      fits := by decide
      units := fun c hc => by
        have ⟨hseparator, hdangerous, hcontrol, _⟩ := units_defaultFileName c hc
        have ⟨hslash, hback, hquote, hsemicolon⟩ := ne_of_not_dangerous hseparator hdangerous
        exact ⟨hslash, hback, hquote, hsemicolon, hcontrol⟩
      ends := ends_defaultFileName
      pairs := fun i _ _ _ => iff_of_false (hcopied i) (hcopied (i + 1))
      fixed := defaultFileName_fixed_iff.mpr (horderly.default_free h) }

/-- A name comes out as promised exactly when none of the control characters from U+0080 on is
copied, the last unit before a cut is neither white space nor half of a pair, and the set of
invalid characters takes both halves of a pair or none, and nothing of the default name. -/
theorem sanitized_iff (invalidFileNameChars : List UInt16) (fileName : Text) :
    Sanitized invalidFileNameChars fileName (sanitize invalidFileNameChars fileName) ↔
      Orderly invalidFileNameChars fileName := by
  by_cases hanswers : answersDefault invalidFileNameChars fileName = true
  · exact sanitized_default_iff hanswers
  have hname := Bool.eq_false_iff.mpr hanswers
  have hunnamed := isUnnamed_sanitize hname
  unfold isUnnamed at hunnamed
  simp only [Bool.or_eq_false_iff, decide_eq_false_iff_not] at hunnamed
  constructor
  · intro hsanitized
    exact {
      default_free := fun h => absurd h hanswers
      controls := (controls_iff hname).mp fun c hc => (hsanitized.units c hc).2.2.2.2
      blank := (endsNot_sanitize_iff hname).mp hsanitized.ends
      pairs := fun i high low h => ((copied_pair_iff h).mp (hsanitized.pairs i high low h)).1
      alike := fun i high low h => ((copied_pair_iff h).mp (hsanitized.pairs i high low h)).2 }
  · intro horderly
    have hends := (endsNot_sanitize_iff hname).mpr horderly.blank
    have hcontrols := (controls_iff hname).mpr horderly.controls
    exact {
      named := ⟨fun h => absurd hunnamed.1.1 (by rw [h]; decide), hunnamed.1.2, hunnamed.2⟩
      fits := length_sanitize_le hname
      units := fun c hc => by
        have ⟨hseparator, hdangerous, _⟩ := units_of_mem_sanitize hname hc
        have ⟨hslash, hback, hquote, hsemicolon⟩ := ne_of_not_dangerous hseparator hdangerous
        exact ⟨hslash, hback, hquote, hsemicolon, hcontrols c hc⟩
      ends := hends
      pairs := fun i high low h =>
        (copied_pair_iff h).mpr ⟨horderly.pairs i high low h, horderly.alike i high low h⟩
      fixed := (plain_sanitize hname hends).sanitize_eq }

/-- A blank that the cut exposes stays, and goes when the name is sanitized once more. -/
theorem blank_before_the_cut_stays :
    ¬Sanitized [0, SLASH] (List.replicate 254 0x61 ++ [0x20, 0x62])
      (sanitize [0, SLASH] (List.replicate 254 0x61 ++ [0x20, 0x62])) := by
  have hresult : sanitize [0, SLASH] (List.replicate 254 0x61 ++ [0x20, 0x62]) =
      List.replicate 254 0x61 ++ [0x20] := by decide +kernel
  intro h
  rw [hresult] at h
  exact absurd (h.ends.2 0x20 (by decide +kernel)) (by decide)

end Kept

end Wallow.Storage.FileNameSanitizer
