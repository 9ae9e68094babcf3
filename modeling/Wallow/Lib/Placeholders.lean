import Mathlib

/-!
# Placeholders in a text

A placeholder is a word between two opening and two closing signs.  A text is taken apart from the
left into placeholders and single units; placeholders never overlap.  Putting texts in the place of
placeholders one name after the other is compared with putting all of them in at once.
-/

namespace Placeholders

/-- Neither sign belongs to a word. -/
structure Signs (α : Type*) where
  opening : α
  closing : α
  isWord : α → Bool
  opening_not_word : isWord opening = false
  opening_ne_closing : opening ≠ closing
  closing_not_word : isWord closing = false

inductive Piece (α : Type*)
  | unit (c : α)
  | placeholder (name : List α)

variable {α : Type*} (signs : Signs α)

def Signs.IsName (name : List α) : Prop :=
  name ≠ [] ∧ ∀ c ∈ name, signs.isWord c = true

theorem Signs.IsName.of_all {signs : Signs α} {name : List α} (hne : name ≠ [])
    (hall : name.all signs.isWord = true) : signs.IsName name :=
  ⟨hne, List.all_eq_true.mp hall⟩

def spell (name : List α) : List α :=
  signs.opening :: signs.opening :: (name ++ [signs.closing, signs.closing])

/-! ## Taking a text apart -/

section Definitions

variable [DecidableEq α]

/-- The name of the placeholder that a text begins with. -/
def next : List α → Option (List α)
  | first :: second :: rest =>
    let name := rest.takeWhile signs.isWord
    if first = signs.opening ∧ second = signs.opening ∧ name ≠ [] ∧
        [signs.closing, signs.closing] <+: rest.dropWhile signs.isWord then some name
    else none
  | _ => none

/-- From a place a few units behind. -/
def scan : Nat → List α → List (Piece α)
  | _, [] => []
  | skipped + 1, _ :: rest => scan skipped rest
  | 0, c :: rest =>
    match next signs (c :: rest) with
    | some name => .placeholder name :: scan (name.length + 3) rest
    | none => .unit c :: scan 0 rest

def parse (text : List α) : List (Piece α) :=
  scan signs 0 text

/-- Each occurrence of a text, from the left, from a place a few units behind. -/
def replaceFrom (old new : List α) : Nat → List α → List α
  | _, [] => []
  | skipped + 1, _ :: rest => replaceFrom old new skipped rest
  | 0, c :: rest =>
    if old <+: c :: rest then new ++ replaceFrom old new (old.length - 1) rest
    else c :: replaceFrom old new 0 rest

def replace (old new text : List α) : List α :=
  replaceFrom old new 0 text

/-- One name after the other. -/
def replaceAll (values : List (List α × List α)) (text : List α) : List α :=
  values.foldl (fun text entry => replace (spell signs entry.1) entry.2 text) text

/-- Every placeholder goes. -/
def sweep (text : List α) : List α :=
  (parse signs text).flatMap fun
    | .unit c => [c]
    | .placeholder _ => []

end Definitions

/-- A text in the place of each placeholder. -/
def fill (f : List α → List α) (pieces : List (Piece α)) : List α :=
  pieces.flatMap fun
    | .unit c => [c]
    | .placeholder name => f name

/-- Units in the place of the placeholders that have a text. -/
def put (f : List α → Option (List α)) (pieces : List (Piece α)) : List (Piece α) :=
  pieces.flatMap fun
    | .unit c => [.unit c]
    | .placeholder name =>
      match f name with
      | some value => value.map .unit
      | none => [.placeholder name]

def names (pieces : List (Piece α)) : List (List α) :=
  pieces.filterMap fun
    | .unit _ => none
    | .placeholder name => some name

section Parse

variable {signs} {name rest text : List α} {c : α}

theorem takeWhile_name (h : signs.IsName name) (rest : List α) :
    (name ++ signs.closing :: rest).takeWhile signs.isWord = name := by
  rw [List.takeWhile_append_of_pos h.2, List.takeWhile_cons_of_neg, List.append_nil]
  rw [signs.closing_not_word]
  exact Bool.false_ne_true

theorem dropWhile_name (h : signs.IsName name) (rest : List α) :
    (name ++ signs.closing :: rest).dropWhile signs.isWord = signs.closing :: rest := by
  rw [List.dropWhile_append_of_pos h.2, List.dropWhile_cons_of_neg]
  rw [signs.closing_not_word]
  exact Bool.false_ne_true

theorem Signs.IsName.ne_opening (h : signs.IsName name) (hc : c ∈ name) : c ≠ signs.opening := by
  intro heq
  have hword := h.2 c hc
  rw [heq, signs.opening_not_word] at hword
  exact absurd hword Bool.false_ne_true

theorem spell_append (name rest : List α) : spell signs name ++ rest =
    signs.opening :: signs.opening :: (name ++ signs.closing :: signs.closing :: rest) := by
  simp [spell]

variable [DecidableEq α]

theorem next_eq_some_iff : next signs text = some name ↔ signs.IsName name ∧
    spell signs name <+: text := by
  constructor
  · intro h
    unfold next at h
    split at h
    · rename_i first second rest
      rw [Option.ite_none_right_eq_some, Option.some.injEq] at h
      have ⟨⟨hfirst, hsecond, hne, hclosed⟩, hname⟩ := h
      refine ⟨⟨hname ▸ hne, ?_⟩, ?_⟩
      · intro c hc
        rw [← hname] at hc
        exact List.mem_takeWhile_imp hc
      · have ⟨after, hafter⟩ := hclosed
        refine ⟨after, ?_⟩
        have hrest := List.takeWhile_append_dropWhile (p := signs.isWord) (l := rest)
        rw [hname, ← hafter] at hrest
        rw [spell_append, hfirst, hsecond, ← hrest]
        rfl
    · cases h
  · intro ⟨hname, rest, hrest⟩
    rw [← hrest, spell_append]
    unfold next
    dsimp only
    rw [takeWhile_name hname, dropWhile_name hname, if_pos]
    exact ⟨rfl, rfl, hname.1, rest, rfl⟩

theorem next_cons_of_ne (h : c ≠ signs.opening) (rest : List α) :
    next signs (c :: rest) = none := by
  cases rest with
  | nil => rfl
  | cons second rest =>
    unfold next
    exact if_neg fun hall => h hall.1

theorem next_cons_of_second_ne {second : α} (h : second ≠ signs.opening) (rest : List α) :
    next signs (c :: second :: rest) = none := by
  unfold next
  exact if_neg fun hall => h hall.2.1

theorem scan_eq (skipped : Nat) (text : List α) :
    scan signs skipped text = parse signs (text.drop skipped) := by
  induction text generalizing skipped with
  | nil => cases skipped <;> rfl
  | cons c rest ih =>
    cases skipped with
    | zero => rfl
    | succ skipped => exact ih skipped

theorem parse_cons (h : next signs (c :: rest) = none) :
    parse signs (c :: rest) = .unit c :: parse signs rest := by
  unfold parse
  rw [scan, h]

theorem parse_spell_append (h : signs.IsName name) (rest : List α) :
    parse signs (spell signs name ++ rest) = .placeholder name :: parse signs rest := by
  have hnext : next signs (spell signs name ++ rest) = some name :=
    next_eq_some_iff.mpr ⟨h, List.prefix_append _ _⟩
  have hdrop : (spell signs name ++ rest).drop (name.length + 4) = rest := by
    have hlength : (spell signs name).length = name.length + 4 := by simp [spell]
    rw [← hlength, List.drop_left]
  unfold parse
  rw [spell_append] at hnext hdrop ⊢
  rw [scan, hnext]
  dsimp only
  rw [scan_eq]
  exact congrArg (fun t => Piece.placeholder name :: parse signs t) hdrop

/-! ### Where nothing begins -/

variable (signs) in
/-- No placeholder begins in the first part of a text. -/
def Quiet (front rest : List α) : Prop :=
  ∀ tail, tail ≠ [] → tail <:+ front → next signs (tail ++ rest) = none

theorem Quiet.tail {front : List α} (h : Quiet signs (c :: front) rest) : Quiet signs front rest :=
  fun tail hne htail => h tail hne (htail.trans (List.suffix_cons c front))

theorem parse_of_quiet {front : List α} (h : Quiet signs front rest) :
    parse signs (front ++ rest) = front.map .unit ++ parse signs rest := by
  induction front with
  | nil => rfl
  | cons c front ih =>
    have hnext := h (c :: front) (List.cons_ne_nil _ _) List.suffix_rfl
    have hparse : parse signs (c :: (front ++ rest)) = .unit c :: parse signs (front ++ rest) :=
      parse_cons hnext
    show parse signs (c :: (front ++ rest)) = _
    rw [hparse, ih h.tail]
    rfl

/-- Behind its first sign, a placeholder is quiet. -/
theorem quiet_tail_spell (h : signs.IsName name) (rest : List α) :
    Quiet signs (signs.opening :: (name ++ [signs.closing, signs.closing])) rest := by
  intro tail hne htail
  cases List.suffix_cons_iff.mp htail with
  | inl hall =>
    -- the second sign is followed by a word
    have ⟨c, word, hword⟩ := List.exists_cons_of_ne_nil h.1
    have hc : c ≠ signs.opening := h.ne_opening (by rw [hword]; simp)
    rw [hall, hword]
    exact next_cons_of_second_ne hc _
  | inr hinside =>
    have ⟨c, later, htailEq⟩ := List.exists_cons_of_ne_nil hne
    have hmem : c ∈ name ++ [signs.closing, signs.closing] :=
      hinside.subset (by rw [htailEq]; simp)
    have hc : c ≠ signs.opening := by
      cases List.mem_append.mp hmem with
      | inl hname => exact h.ne_opening hname
      | inr hclosing =>
        have heq : c = signs.closing := by simpa using hclosing
        exact heq ▸ signs.opening_ne_closing.symm
    rw [htailEq]
    exact next_cons_of_ne hc _

/-! ### Pieces -/

omit [DecidableEq α] in
theorem fill_append (f : List α → List α) (xs ys : List (Piece α)) :
    fill f (xs ++ ys) = fill f xs ++ fill f ys :=
  List.flatMap_append

omit [DecidableEq α] in
theorem fill_units (f : List α → List α) (value : List α) :
    fill f (value.map .unit) = value := by
  induction value with
  | nil => rfl
  | cons c rest ih => exact congrArg (c :: ·) ih

omit [DecidableEq α] in
/-- The placeholders that stay are filled later. -/
theorem fill_put (f : List α → List α) (g : List α → Option (List α))
    (pieces : List (Piece α)) :
    fill f (put g pieces) = fill (fun name => (g name).getD (f name)) pieces := by
  induction pieces with
  | nil => rfl
  | cons piece pieces ih =>
    cases piece with
    | unit c => exact congrArg (c :: ·) ih
    | placeholder name =>
      show fill f ((match g name with
        | some value => value.map .unit
        | none => [.placeholder name]) ++ put g pieces) = (g name).getD (f name) ++ fill _ pieces
      rw [fill_append, ih]
      cases g name with
      | none => exact congrArg (· ++ _) (List.append_nil (f name))
      | some value => rw [fill_units]; rfl

omit [DecidableEq α] in
theorem put_append (f : List α → Option (List α)) (xs ys : List (Piece α)) :
    put f (xs ++ ys) = put f xs ++ put f ys :=
  List.flatMap_append

omit [DecidableEq α] in
theorem put_units (g : List α → Option (List α)) (value : List α) :
    put g (value.map .unit) = value.map .unit := by
  induction value with
  | nil => rfl
  | cons c rest ih => exact congrArg (Piece.unit c :: ·) ih

omit [DecidableEq α] in
theorem put_put (f g : List α → Option (List α)) (pieces : List (Piece α)) :
    put g (put f pieces) = put (fun name => (f name).or (g name)) pieces := by
  induction pieces with
  | nil => rfl
  | cons piece pieces ih =>
    cases piece with
    | unit c => exact congrArg (Piece.unit c :: ·) ih
    | placeholder name =>
      show put g ((match f name with
        | some value => value.map .unit
        | none => [.placeholder name]) ++ put f pieces) =
          (match (f name).or (g name) with
          | some value => value.map .unit
          | none => [.placeholder name]) ++ put _ pieces
      rw [put_append, ih]
      cases f name with
      | none => exact congrArg (· ++ _) (List.append_nil _)
      | some value => exact congrArg (· ++ _) (put_units g value)

variable (signs) in
/-- A text is empty, begins with a placeholder, or begins with a unit. -/
theorem text_induction {motive : List α → Prop} (nil : motive [])
    (unit : ∀ c rest, next signs (c :: rest) = none → motive rest → motive (c :: rest))
    (placeholder : ∀ name rest, signs.IsName name → motive rest →
      motive (spell signs name ++ rest)) (text : List α) : motive text := by
  induction hlength : text.length using Nat.strong_induction_on generalizing text with
  | h length ih =>
    cases text with
    | nil => exact nil
    | cons c rest =>
      cases hnext : next signs (c :: rest) with
      | none => exact unit c rest hnext (ih rest.length (by rw [← hlength]; simp) rest rfl)
      | some name =>
        have ⟨hname, after, hafter⟩ := next_eq_some_iff.mp hnext
        rw [← hafter]
        refine placeholder name after hname (ih after.length ?_ after rfl)
        rw [← hlength, ← hafter, spell_append, List.length_cons, List.length_cons,
          List.length_append, List.length_cons, List.length_cons]
        omega

theorem fill_spell_parse (text : List α) : fill (spell signs) (parse signs text) = text := by
  induction text using text_induction signs with
  | nil => rfl
  | unit c rest hnext ih =>
    rw [parse_cons hnext]
    exact congrArg (c :: ·) ih
  | placeholder name rest hname ih =>
    rw [parse_spell_append hname]
    exact congrArg (spell signs name ++ ·) ih

/-- The placeholders of a text have names. -/
theorem isName_of_mem_parse (text : List α) :
    ∀ name ∈ names (parse signs text), signs.IsName name := by
  induction text using text_induction signs with
  | nil => exact fun _ h => absurd h List.not_mem_nil
  | unit c rest hnext ih =>
    rw [parse_cons hnext]
    exact ih
  | placeholder name rest hname ih =>
    rw [parse_spell_append hname]
    intro other hother
    cases List.mem_cons.mp hother with
    | inl heq => exact heq ▸ hname
    | inr hlater => exact ih other hlater

omit [DecidableEq α] in
theorem length_fill_spell (pieces : List (Piece α)) : (fill (spell signs) pieces).length =
    (fill (fun _ => []) pieces).length + ((names pieces).map (·.length + 4)).sum := by
  induction pieces with
  | nil => rfl
  | cons piece pieces ih =>
    cases piece with
    | unit c =>
      show (fill (spell signs) pieces).length + 1 = (fill (fun _ => []) pieces).length + 1 + _
      rw [ih]
      exact Nat.add_right_comm _ _ _
    | placeholder name =>
      show (spell signs name ++ fill (spell signs) pieces).length =
        (fill (fun _ => []) pieces).length + ((name.length + 4) +
          ((names pieces).map (·.length + 4)).sum)
      have hspell : (spell signs name).length = name.length + 4 := by simp [spell]
      rw [List.length_append, ih, hspell]
      omega

omit [DecidableEq α] in
theorem names_put (f : List α → Option (List α)) (pieces : List (Piece α)) :
    names (put f pieces) = (names pieces).filter fun name => (f name).isNone := by
  induction pieces with
  | nil => rfl
  | cons piece pieces ih =>
    cases piece with
    | unit c => exact ih
    | placeholder name =>
      show names ((match f name with
        | some value => value.map .unit
        | none => [.placeholder name]) ++ put f pieces) =
          (name :: names pieces).filter fun name => (f name).isNone
      have happend : ∀ xs ys : List (Piece α), names (xs ++ ys) = names xs ++ names ys :=
        fun xs ys => List.filterMap_append
      have hunits : ∀ value : List α, names (value.map .unit) = [] := by
        intro value
        induction value with
        | nil => rfl
        | cons c rest ih => exact ih
      rw [happend, ih]
      cases hf : f name with
      | none =>
        rw [List.filter_cons_of_pos (by rw [hf]; rfl)]
        rfl
      | some value =>
        rw [List.filter_cons_of_neg (by rw [hf]; exact Bool.false_ne_true), hunits]
        rfl

/-! ### Pieces that are found again -/

variable {pieces : List (Piece α)}

/-- A placeholder that begins before what is found again stands over units. -/
theorem parse_of_next_cons (h : next signs (c :: rest) = some name) :
    ∃ after, rest = signs.opening :: (name ++ [signs.closing, signs.closing]) ++ after ∧
      parse signs (c :: rest) = .placeholder name :: parse signs after ∧
      parse signs rest = (signs.opening :: (name ++ [signs.closing, signs.closing])).map .unit ++
        parse signs after := by
  have ⟨hname, after, hafter⟩ := next_eq_some_iff.mp h
  have hrest : rest = signs.opening :: (name ++ [signs.closing, signs.closing]) ++ after :=
    (List.cons.inj hafter).2.symm
  refine ⟨after, hrest, ?_, ?_⟩
  · rw [← hafter, parse_spell_append hname]
  · rw [hrest, parse_of_quiet (quiet_tail_spell hname after)]

theorem parse_cons_eq_unit {d : α} {later : List (Piece α)}
    (h : parse signs (c :: rest) = .unit d :: later) :
    next signs (c :: rest) = none ∧ parse signs rest = later := by
  cases hnext : next signs (c :: rest) with
  | none =>
    rw [parse_cons hnext] at h
    exact ⟨rfl, (List.cons.inj h).2⟩
  | some name =>
    have ⟨after, _, hfound, _⟩ := parse_of_next_cons hnext
    rw [hfound] at h
    cases (List.cons.inj h).1

theorem parse_append_eq_units {front : List α} {later : List (Piece α)}
    (h : parse signs (front ++ rest) = front.map .unit ++ later) : parse signs rest = later := by
  induction front with
  | nil => exact h
  | cons c front ih => exact ih (parse_cons_eq_unit h).2

/-- What is found again with more units in the place of placeholders was found before. -/
theorem parse_of_parse_put {f : List α → Option (List α)}
    (hnames : ∀ name ∈ names pieces, signs.IsName name)
    (h : parse signs (fill (spell signs) (put f pieces)) = put f pieces) :
    parse signs (fill (spell signs) pieces) = pieces := by
  induction pieces with
  | nil => rfl
  | cons piece pieces ih =>
    cases piece with
    | unit c =>
      have ⟨hquiet, hlater⟩ := parse_cons_eq_unit h
      have hpieces := ih hnames hlater
      cases hnext : next signs (c :: fill (spell signs) pieces) with
      | none => exact (parse_cons hnext).trans (congrArg (Piece.unit c :: ·) hpieces)
      | some name =>
        -- its units stay where they are, so it would be found with the texts put in as well
        have ⟨after, hrest, _, hunits⟩ := parse_of_next_cons hnext
        have hname := next_eq_some_iff.mp hnext
        have hc : c = signs.opening := by
          have ⟨_, hstart⟩ := hname.2
          exact (List.cons.inj hstart).1.symm
        rw [hpieces] at hunits
        have hfilled : fill (spell signs) (put f pieces) =
            signs.opening :: (name ++ [signs.closing, signs.closing]) ++
              fill (spell signs) (put f (parse signs after)) := by
          rw [hunits, put_append, put_units, fill_append, fill_units]
        have hfound : next signs (c :: fill (spell signs) (put f pieces)) = some name := by
          rw [next_eq_some_iff, hfilled, hc]
          exact ⟨hname.1, List.prefix_append (spell signs name) _⟩
        have hquiet' : next signs (c :: fill (spell signs) (put f pieces)) = none := hquiet
        rw [hfound] at hquiet'
        cases hquiet'
    | placeholder name =>
      have hname := hnames name List.mem_cons_self
      have hih := ih fun other hother => hnames other (List.mem_cons_of_mem _ hother)
      have hput : put f (.placeholder name :: pieces) = (match f name with
        | some value => value.map .unit
        | none => [.placeholder name]) ++ put f pieces := rfl
      have hlater : parse signs (fill (spell signs) (put f pieces)) = put f pieces := by
        rw [hput] at h
        cases hf : f name with
        | none =>
          rw [hf] at h
          have hparse := parse_spell_append hname (fill (spell signs) (put f pieces))
          exact (List.cons.inj (hparse.symm.trans h)).2
        | some value =>
          rw [hf, fill_append, fill_units] at h
          exact parse_append_eq_units h
      show parse signs (spell signs name ++ fill (spell signs) pieces) = _
      rw [parse_spell_append hname, hih hlater]

/-- Taking the spelled pieces apart finds at least as much in placeholders, and no more only where
it finds the pieces. -/
theorem length_fill_parse_le (hnames : ∀ name ∈ names pieces, signs.IsName name) :
    (fill (fun _ => []) (parse signs (fill (spell signs) pieces))).length ≤
      (fill (fun _ => []) pieces).length ∧
    ((fill (fun _ => []) (parse signs (fill (spell signs) pieces))).length =
      (fill (fun _ => []) pieces).length → parse signs (fill (spell signs) pieces) = pieces) := by
  induction pieces with
  | nil => exact ⟨Nat.le_refl _, fun _ => rfl⟩
  | cons piece pieces ih =>
    cases piece with
    | unit c =>
      have hih := ih hnames
      show (fill _ (parse signs (c :: fill (spell signs) pieces))).length ≤
          (fill _ pieces).length + 1 ∧
        ((fill _ (parse signs (c :: fill (spell signs) pieces))).length =
          (fill _ pieces).length + 1 → parse signs (c :: fill (spell signs) pieces) =
            .unit c :: pieces)
      cases hnext : next signs (c :: fill (spell signs) pieces) with
      | none =>
        rw [parse_cons hnext]
        refine ⟨Nat.succ_le_succ hih.1, fun hlength => ?_⟩
        exact congrArg (Piece.unit c :: ·) (hih.2 (Nat.succ.inj hlength))
      | some name =>
        -- the placeholder found here covers units only
        have ⟨after, _, hfound, hunits⟩ := parse_of_next_cons hnext
        have hshort := hih.1
        rw [hunits, fill_append, fill_units, List.length_append, List.length_cons] at hshort
        rw [hfound]
        show (fill _ (parse signs after)).length ≤ _ ∧ ((fill _ (parse signs after)).length = _ → _)
        constructor
        · omega
        · intro hlength
          omega
    | placeholder name =>
      have hname := hnames name List.mem_cons_self
      have hih := ih fun other hother => hnames other (List.mem_cons_of_mem _ hother)
      show (fill _ (parse signs (spell signs name ++ fill (spell signs) pieces))).length ≤
          (fill _ pieces).length ∧
        ((fill _ (parse signs (spell signs name ++ fill (spell signs) pieces))).length =
          (fill _ pieces).length → parse signs (spell signs name ++ fill (spell signs) pieces) =
            .placeholder name :: pieces)
      rw [parse_spell_append hname]
      exact ⟨hih.1, fun hlength => congrArg (Piece.placeholder name :: ·) (hih.2 hlength)⟩

/-! ## Replacing -/

variable {new : List α}

theorem replaceFrom_eq (old new : List α) (skipped : Nat) (text : List α) :
    replaceFrom old new skipped text = replace old new (text.drop skipped) := by
  induction text generalizing skipped with
  | nil => cases skipped <;> rfl
  | cons c rest ih =>
    cases skipped with
    | zero => rfl
    | succ skipped => exact ih skipped

theorem replace_cons (h : ¬spell signs name <+: c :: rest) :
    replace (spell signs name) new (c :: rest) = c :: replace (spell signs name) new rest := by
  unfold replace
  rw [replaceFrom, if_neg h]

theorem replace_spell_append (rest : List α) :
    replace (spell signs name) new (spell signs name ++ rest) =
      new ++ replace (spell signs name) new rest := by
  have hdrop : (spell signs name ++ rest).drop (spell signs name).length = rest := List.drop_left
  have hcons : spell signs name ++ rest = signs.opening ::
      (signs.opening :: (name ++ [signs.closing, signs.closing]) ++ rest) := rfl
  rw [hcons] at hdrop ⊢
  have hpos : (spell signs name).length = (spell signs name).length - 1 + 1 := rfl
  rw [hpos, List.drop_succ_cons] at hdrop
  have hbegins : spell signs name <+: signs.opening ::
      (signs.opening :: (name ++ [signs.closing, signs.closing]) ++ rest) :=
    List.prefix_append (spell signs name) rest
  rw [replace, replaceFrom, if_pos hbegins, replaceFrom_eq, hdrop]

theorem not_spell_prefix_of_next (hname : signs.IsName name) (h : next signs text = none) :
    ¬spell signs name <+: text := by
  intro hbegins
  rw [next_eq_some_iff.mpr ⟨hname, hbegins⟩] at h
  cases h

theorem replace_of_quiet {front : List α} (hname : signs.IsName name)
    (h : Quiet signs front rest) : replace (spell signs name) new (front ++ rest) =
      front ++ replace (spell signs name) new rest := by
  induction front with
  | nil => rfl
  | cons c front ih =>
    have hnext := h (c :: front) (List.cons_ne_nil _ _) List.suffix_rfl
    exact (replace_cons (not_spell_prefix_of_next hname hnext)).trans
      (congrArg (c :: ·) (ih h.tail))

/-- What is replaced are placeholders of the text. -/
theorem replace_spell (hname : signs.IsName name) (new text : List α) :
    replace (spell signs name) new text =
      fill (fun other => if other = name then new else spell signs other) (parse signs text) := by
  induction text using text_induction signs with
  | nil => rfl
  | unit c rest hnext ih =>
    rw [parse_cons hnext, replace_cons (not_spell_prefix_of_next hname hnext), ih]
    rfl
  | placeholder other rest hother ih =>
    rw [parse_spell_append hother]
    show _ = (if other = name then new else spell signs other) ++ fill _ (parse signs rest)
    by_cases hsame : other = name
    · rw [if_pos hsame, hsame, replace_spell_append, ih]
    · rw [if_neg hsame, ← ih]
      have hnot : ¬spell signs name <+: spell signs other ++ rest := by
        intro hbegins
        have hnext := next_eq_some_iff.mpr ⟨hname, hbegins⟩
        have hnext' := next_eq_some_iff.mpr ⟨hother, List.prefix_append (spell signs other) rest⟩
        exact hsame (Option.some.inj (hnext'.symm.trans hnext))
      exact (replace_cons hnot).trans
        (congrArg (signs.opening :: ·) (replace_of_quiet hname (quiet_tail_spell hother rest)))

/-! ## One after the other, and all at once -/

variable {values : List (List α × List α)}

/-- The text for a name; of several for one name the first. -/
def valueOf (values : List (List α × List α)) (name : List α) : Option (List α) :=
  values.lookup name

theorem valueOf_cons (entry : List α × List α) : valueOf (entry :: values) =
    fun name => (if name = entry.1 then some entry.2 else none).or (valueOf values name) := by
  funext name
  unfold valueOf
  by_cases hname : name = entry.1
  · rw [List.lookup_cons, hname, beq_self_eq_true, if_pos rfl]
    rfl
  · rw [List.lookup_cons, beq_eq_false_iff_ne.mpr hname, if_neg hname]
    rfl

/-- The placeholders without a text stay. -/
def substitute (signs : Signs α) (values : List (List α × List α)) (text : List α) : List α :=
  fill (fun name => (valueOf values name).getD (spell signs name)) (parse signs text)

/-- The placeholders without a text go. -/
def substituteAll (signs : Signs α) (values : List (List α × List α)) (text : List α) : List α :=
  fill (fun name => (valueOf values name).getD []) (parse signs text)

theorem replaceAll_pieces (hvalues : ∀ entry ∈ values, signs.IsName entry.1)
    (hnames : ∀ name ∈ names pieces, signs.IsName name)
    (hfound : parse signs (fill (spell signs) pieces) = pieces)
    (hput : parse signs (fill (spell signs) (put (valueOf values) pieces)) =
      put (valueOf values) pieces) :
    replaceAll signs values (fill (spell signs) pieces) =
      fill (spell signs) (put (valueOf values) pieces) := by
  induction values generalizing pieces with
  | nil => exact (fill_put (spell signs) (fun _ => none) pieces).symm
  | cons entry values ih =>
    have ⟨hentry, hlater⟩ := List.forall_mem_cons.mp hvalues
    let single : List α → Option (List α) := fun name =>
      if name = entry.1 then some entry.2 else none
    have hboth : put (valueOf (entry :: values)) pieces =
        put (valueOf values) (put single pieces) := by
      rw [put_put, valueOf_cons]
    have hsingle : ∀ name ∈ names (put single pieces), signs.IsName name := by
      intro name hname
      rw [names_put] at hname
      exact hnames name ((List.mem_filter.mp hname).1)
    have hstep : replace (spell signs entry.1) entry.2 (fill (spell signs) pieces) =
        fill (spell signs) (put single pieces) := by
      rw [replace_spell hentry, hfound, fill_put]
      congr 1
      funext name
      by_cases hname : name = entry.1
      · simp only [single, if_pos hname]
        rfl
      · simp only [single, if_neg hname]
        rfl
    rw [hboth] at hput ⊢
    show replaceAll signs values (replace (spell signs entry.1) entry.2 _) = _
    rw [hstep]
    exact ih hlater hsingle (parse_of_parse_put hsingle hput) hput

/-- The text with everything put in has only the placeholders without a text. -/
def Settles (signs : Signs α) (values : List (List α × List α)) (text : List α) : Prop :=
  names (parse signs (substitute signs values text)) =
    (names (parse signs text)).filter fun name => (valueOf values name).isNone

theorem substitute_eq (text : List α) : substitute signs values text =
    fill (spell signs) (put (valueOf values) (parse signs text)) :=
  (fill_put (spell signs) (valueOf values) (parse signs text)).symm

theorem substituteAll_eq (text : List α) : substituteAll signs values text =
    fill (fun _ => []) (put (valueOf values) (parse signs text)) :=
  (fill_put (fun _ => []) (valueOf values) (parse signs text)).symm

theorem sweep_eq (text : List α) : sweep signs text = fill (fun _ => []) (parse signs text) := rfl

theorem isName_of_mem_put (text : List α) :
    ∀ name ∈ names (put (valueOf values) (parse signs text)), signs.IsName name := by
  intro name hname
  rw [names_put] at hname
  exact isName_of_mem_parse text name ((List.mem_filter.mp hname).1)

theorem settles_iff (text : List α) : Settles signs values text ↔
    parse signs (fill (spell signs) (put (valueOf values) (parse signs text))) =
      put (valueOf values) (parse signs text) := by
  unfold Settles
  rw [substitute_eq, ← names_put]
  constructor
  · intro h
    -- as many units in placeholders, so as many outside
    have hfound := @length_fill_spell α signs
      (parse signs (fill (spell signs) (put (valueOf values) (parse signs text))))
    have hput := @length_fill_spell α signs (put (valueOf values) (parse signs text))
    rw [fill_spell_parse, h] at hfound
    exact (length_fill_parse_le (isName_of_mem_put text)).2 (by omega)
  · intro h
    rw [h]

/-- Replacing one name after the other and sweeping is putting everything in at once, at each of the
two steps, exactly when what is put in makes no placeholder. -/
theorem sequential_iff (hvalues : ∀ entry ∈ values, signs.IsName entry.1) (text : List α) :
    (replaceAll signs values text = substitute signs values text ∧
      sweep signs (replaceAll signs values text) = substituteAll signs values text) ↔
    Settles signs values text := by
  rw [settles_iff, substitute_eq, substituteAll_eq]
  constructor
  · intro ⟨hreplaced, hswept⟩
    rw [hreplaced, sweep_eq] at hswept
    exact (length_fill_parse_le (isName_of_mem_put text)).2 (congrArg List.length hswept)
  · intro h
    have hreplaced : replaceAll signs values text =
        fill (spell signs) (put (valueOf values) (parse signs text)) := by
      have hpieces := replaceAll_pieces hvalues (isName_of_mem_parse text)
        (congrArg (parse signs) (fill_spell_parse text)) h
      rw [fill_spell_parse] at hpieces
      exact hpieces
    refine ⟨hreplaced, ?_⟩
    rw [hreplaced, sweep_eq, h]

end Parse

end Placeholders
