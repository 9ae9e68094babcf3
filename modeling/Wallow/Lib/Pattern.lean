import Mathlib.Data.List.Basic
import Mathlib.Data.List.Infix

/-!
# Patterns and their replacement

Regular expressions with greedy repetition, word boundaries and assertions on the characters around
a match, as backtracking engines run them: `ends` lists where a match may end, the preferred ends
first.  `Accepts` says what a match is, without an order.
-/

inductive Pattern
  | one (p : Char → Bool)
  | seq (a b : Pattern)
  | alt (a b : Pattern)
  /-- Greedy; each time something is consumed. -/
  | many (least : Nat) (most : Option Nat) (a : Pattern)
  | boundary (word : Char → Bool)
  | notBehind (p : Char → Bool)
  | notAhead (p : Char → Bool)

namespace Pattern

def literal : List (Char → Bool) → Pattern
  | [] => many 0 (some 0) (one fun _ => false)
  | [p] => one p
  | p :: q :: rest => seq (one p) (literal (q :: rest))

/-! ## What a match is -/

/-- The character before what follows `m`. -/
def after (prev : Option Char) (m : List Char) : Option Char := m.getLast?.or prev

/-- The character behind what comes before `m`. -/
def ahead (m : List Char) (next : Option Char) : Option Char := m.head?.or next

theorem after_append (prev : Option Char) (m n : List Char) :
    after prev (m ++ n) = after (after prev m) n := by
  unfold after
  rw [List.getLast?_append]
  cases n.getLast? <;> rfl

theorem ahead_head? (m rest : List Char) : ahead m rest.head? = (m ++ rest).head? := by
  cases m <;> rfl

theorem after_cons (prev : Option Char) (c : Char) (m : List Char) :
    after prev (c :: m) = after (some c) m :=
  after_append prev [c] m

/-- The pattern matches the text between the two characters. -/
inductive Accepts : Pattern → Option Char → List Char → Option Char → Prop
  | one {p prev next c} (h : p c = true) : Accepts (.one p) prev [c] next
  | seq {a b prev next m n} (ha : Accepts a prev m (ahead n next))
      (hb : Accepts b (after prev m) n next) : Accepts (.seq a b) prev (m ++ n) next
  | left {a b prev next m} (h : Accepts a prev m next) : Accepts (.alt a b) prev m next
  | right {a b prev next m} (h : Accepts b prev m next) : Accepts (.alt a b) prev m next
  | done {most a prev next} : Accepts (.many 0 most a) prev [] next
  | more {least most a prev next m n} (hmost : most ≠ some 0) (hne : m ≠ [])
      (ha : Accepts a prev m (ahead n next))
      (hrest : Accepts (.many (least - 1) (most.map (· - 1)) a) (after prev m) n next) :
      Accepts (.many least most a) prev (m ++ n) next
  | boundary {word prev next} (h : prev.any word ≠ next.any word) :
      Accepts (.boundary word) prev [] next
  | notBehind {p prev next} (h : prev.any p = false) : Accepts (.notBehind p) prev [] next
  | notAhead {p prev next} (h : next.any p = false) : Accepts (.notAhead p) prev [] next

/-! ## The engine -/

/-- The ends of a repetition, given those of what is repeated. -/
def manyEnds (step : Option Char → List Char → List (Option Char × List Char)) :
    Nat → Nat → Option Nat → Option Char → List Char → List (Option Char × List Char)
  | 0, least, _, prev, cs => if least = 0 then [(prev, cs)] else []
  | fuel + 1, least, most, prev, cs =>
    (if most = some 0 then []
      else (step prev cs).flatMap fun (q, ds) =>
        if ds.length < cs.length then
          manyEnds step fuel (least - 1) (most.map (· - 1)) q ds
        else []) ++
      if least = 0 then [(prev, cs)] else []

/-- Where a match that starts here may end: the last character of the match or before it, and the
rest of the text. -/
def ends : Pattern → Option Char → List Char → List (Option Char × List Char)
  | one p, _, cs =>
    match cs with
    | [] => []
    | c :: cs => if p c then [(some c, cs)] else []
  | seq a b, prev, cs => (ends a prev cs).flatMap fun (q, ds) => ends b q ds
  | alt a b, prev, cs => ends a prev cs ++ ends b prev cs
  | many least most a, prev, cs => manyEnds (ends a) cs.length least most prev cs
  | boundary word, prev, cs => if prev.any word ≠ cs.head?.any word then [(prev, cs)] else []
  | notBehind p, prev, cs => if prev.any p then [] else [(prev, cs)]
  | notAhead p, prev, cs => if cs.head?.any p then [] else [(prev, cs)]

/-- A match that starts here. -/
def MatchesAt (a : Pattern) (prev : Option Char) (cs : List Char)
    (x : Option Char × List Char) : Prop :=
  ∃ m, cs = m ++ x.2 ∧ x.1 = after prev m ∧ Accepts a prev m x.2.head?

theorem manyEnds_sound {a : Pattern} (ih : ∀ prev cs x, x ∈ ends a prev cs → MatchesAt a prev cs x)
    (fuel least : Nat) (most : Option Nat) (prev : Option Char) (cs : List Char)
    (x : Option Char × List Char) (h : x ∈ manyEnds (ends a) fuel least most prev cs) :
    MatchesAt (many least most a) prev cs x := by
  have stop : ∀ {least : Nat} {most : Option Nat} {prev : Option Char} {cs : List Char},
      x ∈ (if least = 0 then [(prev, cs)] else []) → MatchesAt (many least most a) prev cs x := by
    intro least most prev cs hx
    split at hx
    · rename_i hleast
      rw [List.mem_singleton.mp hx, hleast]
      exact ⟨[], rfl, rfl, .done⟩
    · exact absurd hx List.not_mem_nil
  induction fuel generalizing least most prev cs with
  | zero => exact stop h
  | succ fuel ihfuel =>
    rw [manyEnds] at h
    cases List.mem_append.mp h with
    | inr hstop => exact stop hstop
    | inl hmore =>
      split at hmore
      · exact absurd hmore List.not_mem_nil
      · rename_i hmost
        have ⟨⟨q, ds⟩, hstep, hin⟩ := List.mem_flatMap.mp hmore
        dsimp only at hin
        split at hin
        · rename_i hlt
          have ⟨m, hcs, hq, hm⟩ := ih prev cs (q, ds) hstep
          have ⟨n, hds, hx, hn⟩ := ihfuel _ _ q ds hin
          dsimp only at hcs hq hm
          have hne : m ≠ [] := by
            intro hnil
            rw [hcs, hnil] at hlt
            exact absurd hlt (Nat.lt_irrefl _)
          rw [hds, ← ahead_head?] at hm
          rw [hq] at hn hx
          refine ⟨m ++ n, ?_, ?_, .more hmost hne hm hn⟩
          · rw [List.append_assoc, ← hds]
            exact hcs
          · rw [after_append]
            exact hx
        · exact absurd hin List.not_mem_nil

theorem ends_sound {a : Pattern} {prev : Option Char} {cs : List Char}
    {x : Option Char × List Char} (h : x ∈ ends a prev cs) : MatchesAt a prev cs x := by
  induction a generalizing prev cs x with
  | one p =>
    cases cs with
    | nil => exact absurd h List.not_mem_nil
    | cons c cs =>
      rw [ends] at h
      split at h
      · rename_i hp
        rw [List.mem_singleton.mp h]
        exact ⟨[c], rfl, rfl, .one hp⟩
      · exact absurd h List.not_mem_nil
  | seq a b iha ihb =>
    have ⟨⟨q, ds⟩, ha, hb⟩ := List.mem_flatMap.mp h
    have ⟨m, hcs, hq, hm⟩ := iha ha
    have ⟨n, hds, hx, hn⟩ := ihb hb
    dsimp only at hcs hq hm
    rw [hds, ← ahead_head?] at hm
    rw [hq] at hn hx
    refine ⟨m ++ n, ?_, ?_, .seq hm hn⟩
    · rw [List.append_assoc, ← hds]
      exact hcs
    · rw [after_append]
      exact hx
  | alt a b iha ihb =>
    cases List.mem_append.mp h with
    | inl ha =>
      have ⟨m, hcs, hx, hm⟩ := iha ha
      exact ⟨m, hcs, hx, .left hm⟩
    | inr hb =>
      have ⟨m, hcs, hx, hm⟩ := ihb hb
      exact ⟨m, hcs, hx, .right hm⟩
  | many least most a ih =>
    exact manyEnds_sound (fun _ _ _ hx => ih hx) _ least most prev cs x h
  | boundary word =>
    rw [ends] at h
    split at h
    · rename_i hword
      rw [List.mem_singleton.mp h]
      exact ⟨[], rfl, rfl, .boundary hword⟩
    · exact absurd h List.not_mem_nil
  | notBehind p =>
    rw [ends] at h
    split at h
    · exact absurd h List.not_mem_nil
    · rename_i hp
      rw [List.mem_singleton.mp h]
      exact ⟨[], rfl, rfl, .notBehind (by simpa using hp)⟩
  | notAhead p =>
    rw [ends] at h
    split at h
    · exact absurd h List.not_mem_nil
    · rename_i hp
      rw [List.mem_singleton.mp h]
      exact ⟨[], rfl, rfl, .notAhead (by simpa using hp)⟩

theorem manyEnds_nil (step : Option Char → List Char → List (Option Char × List Char))
    (fuel least : Nat) (most : Option Nat) (prev : Option Char) :
    manyEnds step fuel least most prev [] = if least = 0 then [(prev, [])] else [] := by
  cases fuel with
  | zero => rfl
  | succ fuel =>
    have hnone : (step prev []).flatMap (fun x =>
        if x.2.length < ([] : List Char).length then
          manyEnds step fuel (least - 1) (most.map (· - 1)) x.1 x.2 else []) = [] := by
      apply List.flatMap_eq_nil_iff.mpr
      intro x _
      exact if_neg (Nat.not_lt_zero _)
    show (if most = some 0 then [] else (step prev []).flatMap _) ++ _ = _
    rw [hnone, ite_self, List.nil_append]

/-- More fuel than the text is long changes nothing. -/
theorem manyEnds_fuel (step : Option Char → List Char → List (Option Char × List Char))
    (fuel fuel' least : Nat) (most : Option Nat) (prev : Option Char) (cs : List Char)
    (h : cs.length ≤ fuel) (h' : cs.length ≤ fuel') :
    manyEnds step fuel least most prev cs = manyEnds step fuel' least most prev cs := by
  induction fuel generalizing fuel' least most prev cs with
  | zero =>
    rw [List.eq_nil_of_length_eq_zero (Nat.le_zero.mp h), manyEnds_nil, manyEnds_nil]
  | succ fuel ih =>
    cases fuel' with
    | zero => rw [List.eq_nil_of_length_eq_zero (Nat.le_zero.mp h'), manyEnds_nil, manyEnds_nil]
    | succ fuel' =>
      have hflat : (step prev cs).flatMap (fun x =>
            if x.2.length < cs.length then
              manyEnds step fuel (least - 1) (most.map (· - 1)) x.1 x.2 else []) =
          (step prev cs).flatMap fun x =>
            if x.2.length < cs.length then
              manyEnds step fuel' (least - 1) (most.map (· - 1)) x.1 x.2 else [] := by
        apply List.flatMap_congr
        intro x _
        split
        · rename_i hlt
          exact ih fuel' _ _ x.1 x.2 (by omega) (by omega)
        · rfl
      show (if most = some 0 then [] else (step prev cs).flatMap _) ++ _ =
        (if most = some 0 then [] else (step prev cs).flatMap _) ++ _
      rw [hflat]

theorem ends_complete {a : Pattern} {prev next : Option Char} {m : List Char}
    (h : Accepts a prev m next) (rest : List Char) (hnext : next = rest.head?) :
    (after prev m, rest) ∈ ends a prev (m ++ rest) := by
  induction h generalizing rest with
  | one hp =>
    show _ ∈ (if _ then _ else _)
    rw [if_pos hp]
    exact List.mem_singleton_self _
  | seq _ _ iha ihb =>
    rename_i b prev next m n _ _
    have hfirst := iha (n ++ rest) (by rw [hnext, ahead_head?])
    rw [List.append_assoc, after_append]
    exact List.mem_flatMap.mpr ⟨_, hfirst, ihb rest hnext⟩
  | left _ ih => exact List.mem_append_left _ (ih rest hnext)
  | right _ ih => exact List.mem_append_right _ (ih rest hnext)
  | done =>
    rw [ends]
    cases List.length ([] ++ rest) with
    | zero => exact List.mem_singleton_self _
    | succ fuel => exact List.mem_append_right _ (List.mem_singleton_self _)
  | more hmost hne _ _ iha ihrest =>
    rename_i least most b prev next m n _ _
    have hfirst := iha (n ++ rest) (by rw [hnext, ahead_head?])
    have hthen := ihrest rest hnext
    have hpos : 0 < m.length := List.length_pos_iff.mpr hne
    have hlen : (m ++ (n ++ rest)).length = m.length + (n ++ rest).length := List.length_append
    rw [List.append_assoc, after_append, ends]
    rw [ends] at hthen
    rw [manyEnds_fuel _ (m ++ (n ++ rest)).length ((m ++ (n ++ rest)).length - 1 + 1) _ _ _ _
      (Nat.le_refl _) (by omega), manyEnds, if_neg hmost]
    apply List.mem_append_left
    refine List.mem_flatMap.mpr ⟨_, hfirst, ?_⟩
    have hlt : (n ++ rest).length < (m ++ (n ++ rest)).length := by omega
    dsimp only
    rw [if_pos hlt, manyEnds_fuel _ _ (n ++ rest).length _ _ _ _ (by omega) (Nat.le_refl _)]
    exact hthen
  | boundary hword =>
    rw [hnext] at hword
    show _ ∈ (if _ then _ else _)
    rw [List.nil_append, if_pos hword]
    exact List.mem_singleton_self _
  | notBehind hp =>
    show _ ∈ (if _ then _ else _)
    rw [if_neg (by simp [hp])]
    exact List.mem_singleton_self _
  | notAhead hp =>
    rw [hnext] at hp
    show _ ∈ (if _ then _ else _)
    rw [List.nil_append, if_neg (by simp [hp])]
    exact List.mem_singleton_self _

/-! ## Testing -/

/-- A match, empty or not, begins here or later. -/
def testFrom (a : Pattern) : Option Char → List Char → Bool
  | prev, [] => !(ends a prev []).isEmpty
  | prev, c :: cs => !(ends a prev (c :: cs)).isEmpty || testFrom a (some c) cs

/-- `test`. -/
def test (a : Pattern) (cs : List Char) : Bool := testFrom a none cs

theorem testFrom_append (a : Pattern) (prev : Option Char) (u cs : List Char)
    (h : testFrom a (after prev u) cs = true) : testFrom a prev (u ++ cs) = true := by
  induction u generalizing prev with
  | nil => exact h
  | cons c u ih =>
    rw [after_cons] at h
    show (!(ends a prev (c :: (u ++ cs))).isEmpty || testFrom a (some c) (u ++ cs)) = true
    rw [ih (some c) h, Bool.or_true]

theorem testFrom_of_ends {a : Pattern} {prev : Option Char} {cs : List Char}
    {x : Option Char × List Char} (h : x ∈ ends a prev cs) : testFrom a prev cs = true := by
  have hsome : (ends a prev cs).isEmpty = false := by
    rw [List.isEmpty_eq_false_iff_exists_mem]
    exact ⟨x, h⟩
  cases cs with
  | nil => rw [testFrom, hsome]; rfl
  | cons c cs => rw [testFrom, hsome]; rfl

theorem test_of_accepts {a : Pattern} {u m v : List Char}
    (h : Accepts a (after none u) m v.head?) : test a (u ++ (m ++ v)) = true :=
  testFrom_append a none u _ (testFrom_of_ends (ends_complete h v rfl))

theorem exists_accepts_of_testFrom {a : Pattern} {prev : Option Char} {cs : List Char}
    (h : testFrom a prev cs = true) :
    ∃ u m v, cs = u ++ (m ++ v) ∧ Accepts a (after prev u) m v.head? := by
  have hends : ∀ prev cs, (!(ends a prev cs).isEmpty) = true →
      ∃ u m v, cs = u ++ (m ++ v) ∧ Accepts a (after prev u) m v.head? := by
    intro prev cs hsome
    rw [Bool.not_eq_true', List.isEmpty_eq_false_iff_exists_mem] at hsome
    have ⟨x, hx⟩ := hsome
    have ⟨m, hcs, _, hm⟩ := ends_sound hx
    exact ⟨[], m, x.2, hcs, hm⟩
  induction cs generalizing prev with
  | nil => exact hends prev [] h
  | cons c cs ih =>
    rw [testFrom, Bool.or_eq_true] at h
    cases h with
    | inl hhere => exact hends prev (c :: cs) hhere
    | inr hlater =>
      have ⟨u, m, v, hcs, hm⟩ := ih hlater
      exact ⟨c :: u, m, v, congrArg (c :: ·) hcs, (after_cons prev c u).symm ▸ hm⟩

/-! ## Shapes -/

variable {a b : Pattern} {prev next : Option Char} {m : List Char} {p : Char → Bool}

/-- The pattern does not look at what is around a match. -/
def Plain : Pattern → Prop
  | one _ => True
  | seq a b => a.Plain ∧ b.Plain
  | alt a b => a.Plain ∧ b.Plain
  | many _ _ a => a.Plain
  | _ => False

theorem Accepts.anywhere (h : Accepts a prev m next) (ha : a.Plain) (prev' next' : Option Char) :
    Accepts a prev' m next' := by
  induction h generalizing prev' next' with
  | one hp => exact .one hp
  | seq _ _ iha ihb => exact .seq (iha ha.1 _ _) (ihb ha.2 _ _)
  | left _ ih => exact .left (ih ha.1 _ _)
  | right _ ih => exact .right (ih ha.2 _ _)
  | done => exact .done
  | more hmost hne _ _ iha ihrest => exact .more hmost hne (iha ha _ _) (ihrest ha _ _)
  | _ => exact ha.elim

/-! ## Replacing -/

/-- A piece of a text: a character that no match begins at, or a match. -/
inductive Piece
  | kept (c : Char)
  | found (m : List Char)
  deriving DecidableEq

def Piece.out (f : List Char → List Char) : Piece → List Char
  | kept c => [c]
  | found m => f m

def output (f : List Char → List Char) (ps : List Piece) : List Char := ps.flatMap (Piece.out f)

/-- The pieces of a text, from the left; a match that is empty is passed over. -/
def pieces (a : Pattern) : Nat → Option Char → List Char → List Piece
  | 0, _, cs => cs.map .kept
  | _ + 1, _, [] => []
  | fuel + 1, prev, c :: cs =>
    match (ends a prev (c :: cs)).head? with
    | some (q, rest) =>
      if rest.length < (c :: cs).length then
        .found ((c :: cs).take ((c :: cs).length - rest.length)) :: pieces a fuel q rest
      else .kept c :: pieces a fuel (some c) cs
    | none => .kept c :: pieces a fuel (some c) cs

/-- `replaceAll`, with a function for the replacement. -/
def replaceAll (a : Pattern) (f : List Char → List Char) (cs : List Char) : List Char :=
  output f (pieces a cs.length none cs)

@[simp] theorem output_kept (f : List Char → List Char) (m : List Char) :
    output f (m.map .kept) = m := by
  induction m with
  | nil => rfl
  | cons c m ih => exact congrArg (c :: ·) ih

theorem replaceAll_eq_self {cs : List Char} (f : List Char → List Char)
    (h : pieces a cs.length none cs = cs.map .kept) : replaceAll a f cs = cs := by
  rw [replaceAll, h, output_kept]

end Pattern
