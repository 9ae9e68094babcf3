import Wallow.Lib.QueryText
import Mathlib.Data.List.Lex
import Mathlib.Data.List.Sort
import Mathlib.Data.Set.Function

/-!
# The authorize request behind a consent

The consent screen is given a URL that carries the request on, and a token that is bound to a
fingerprint of the request.  Both are written from one list of its parameters.
-/

namespace Wallow.Identity

/-! ## Requests -/

inductive ParameterValue
  | single (value : String)
  /-- The name was given more than once. -/
  | repeated (values : List String)
  deriving DecidableEq

def ParameterValue.ofValues : List String → ParameterValue
  | [value] => single value
  | values => repeated values

/-- `(string?)parameter.Value`; `convert` is what it makes of an array. -/
def ParameterValue.text (convert : List String → Option String) : ParameterValue → Option String
  | single value => some value
  | repeated values => convert values

def findParameter (parameters : List (String × ParameterValue)) (name : String) :
    Option ParameterValue :=
  (parameters.find? (·.1 = name)).map (·.2)

/-- The parameters of a request.  The host reads names that `fold` takes to one as one name, and
drops the empty name. -/
structure AuthorizeRequest (fold : String → String) where
  parameters : List (String × ParameterValue)
  names_nodup : (parameters.map fun p => fold p.1).Nodup
  names_ne : ∀ p ∈ parameters, p.1 ≠ ""

def ConsentTokenParameter : String := "consent_token"
def ConsentDecisionParameter : String := "consent_decision"

/-- `_consentParameters.Contains`. -/
def isConsentParameter (name : String) : Bool :=
  name = ConsentTokenParameter || name = ConsentDecisionParameter

/-- The UTF-16 code units of a character. -/
def utf16Char (c : Char) : List Nat :=
  if c.toNat < 0x10000 then [c.toNat]
  else [0xD800 + (c.toNat - 0x10000) / 0x400, 0xDC00 + (c.toNat - 0x10000) % 0x400]

def utf16 (text : String) : List Nat := text.toList.flatMap utf16Char

/-- `StringComparer.Ordinal`. -/
def ordinal (a b : String) : Prop := utf16 a ≤ utf16 b

instance (a b : String) : Decidable (ordinal a b) := inferInstanceAs (Decidable (_ ≤ _))

/-- A path of the server's own, without a query. -/
abbrev RequestPath := { path : List Char // '?' ∉ path }

/-! ## The controller -/

section Controller

variable {fold : String → String} (convert : List String → Option String)

def authorizeParameters (request : AuthorizeRequest fold) : List (String × Option String) :=
  ((request.parameters.filter fun p => !isConsentParameter p.1).insertionSort
    fun p q => ordinal p.1 q.1).map fun p => (p.1, p.2.text convert)

/-- The text that is hashed; nothing is appended for a value that is null. -/
def canonical (request : AuthorizeRequest fold) : String :=
  String.ofList ((authorizeParameters convert request).flatMap fun (name, value) =>
    name.toList ++ '=' :: (value.getD "").toList ++ ['\n'])

def consentRequestFingerprint (digest : String → String) (request : AuthorizeRequest fold) :
    String :=
  digest (canonical convert request)

/-- `QueryString.Create`, which writes nothing for a value that is null. -/
def queryStringCreate (parameters : List (String × Option String)) : List Char :=
  match parameters with
  | [] => []
  | parameters => '?' :: QueryText.write (parameters.map fun (name, value) => (name, value.getD ""))

/-- The `returnUrl` of `RedirectToConsent`. -/
def consentReturnUrl (path : RequestPath) (request : AuthorizeRequest fold) : List Char :=
  path ++ queryStringCreate (authorizeParameters convert request)

end Controller

/-! ## What the host reads -/

section Host

variable (fold : String → String)

def addPair (groups : List (String × List String)) (pair : String × String) :
    List (String × List String) :=
  if groups.any (fold ·.1 = fold pair.1) then
    groups.map fun g => if fold g.1 = fold pair.1 then (g.1, g.2 ++ [pair.2]) else g
  else groups ++ [(pair.1, [pair.2])]

def received (pairs : List (String × String)) : List (String × ParameterValue) :=
  ((pairs.foldl (addPair fold) []).filter (·.1 ≠ "")).map fun g => (g.1, .ofValues g.2)

/-- The parameters of a URL. -/
def parametersOf (url : List Char) : List (String × ParameterValue) :=
  received fold (QueryText.read (url.dropWhile (· ≠ '?')).tail)

end Host

/-! ## Order -/

theorem utf16Char_ne_nil (c : Char) : utf16Char c ≠ [] := by
  unfold utf16Char
  split
  · exact List.cons_ne_nil _ _
  · exact List.cons_ne_nil _ _

/-- A character is known from its units, whatever follows. -/
theorem utf16Char_append_inj {c d : Char} {xs ys : List Nat}
    (h : utf16Char c ++ xs = utf16Char d ++ ys) : c = d ∧ xs = ys := by
  have hc : c.toNat < 0xD800 ∨ (0xDFFF < c.toNat ∧ c.toNat < 0x110000) := c.valid
  have hd : d.toNat < 0xD800 ∨ (0xDFFF < d.toNat ∧ d.toNat < 0x110000) := d.valid
  unfold utf16Char at h
  split at h
  · split at h
    · simp only [List.singleton_append, List.cons.injEq] at h
      exact ⟨Char.toNat_inj.mp h.1, h.2⟩
    · -- one unit against the first of a pair
      simp only [List.cons_append, List.cons.injEq] at h
      omega
  · split at h
    · simp only [List.cons_append, List.cons.injEq] at h
      omega
    · simp only [List.cons_append, List.nil_append, List.cons.injEq] at h
      exact ⟨Char.toNat_inj.mp (by omega), h.2.2⟩

theorem utf16_injective : Function.Injective utf16 := by
  intro a b h
  have hchars : ∀ xs ys : List Char, xs.flatMap utf16Char = ys.flatMap utf16Char → xs = ys := by
    intro xs
    induction xs with
    | nil =>
      intro ys h
      cases ys with
      | nil => rfl
      | cons d ys => exact absurd (List.append_eq_nil_iff.mp h.symm).1 (utf16Char_ne_nil d)
    | cons c xs ih =>
      intro ys h
      cases ys with
      | nil => exact absurd (List.append_eq_nil_iff.mp h).1 (utf16Char_ne_nil c)
      | cons d ys =>
        have ⟨hhead, htail⟩ := utf16Char_append_inj h
        rw [hhead, ih ys htail]
  exact String.toList_injective (hchars _ _ h)

theorem ordinal_antisymm {a b : String} (h : ordinal a b) (h' : ordinal b a) : a = b :=
  utf16_injective (le_antisymm h h')

instance : Std.Total fun p q : String × ParameterValue => ordinal p.1 q.1 :=
  ⟨fun p q => le_total (utf16 p.1) (utf16 q.1)⟩

instance : IsTrans (String × ParameterValue) fun p q => ordinal p.1 q.1 :=
  ⟨fun _ _ _ h h' => le_trans h h'⟩

/-! ## The parameters as pairs of texts -/

section Pairs

variable {fold : String → String} {convert : List String → Option String}
  {r q : AuthorizeRequest fold} {name : String}

/-- The parameters that both texts are written from. -/
def authorizePairs (convert : List String → Option String) (request : AuthorizeRequest fold) :
    List (String × String) :=
  (authorizeParameters convert request).map fun (name, value) => (name, value.getD "")

theorem mem_authorizePairs {pair : String × String} :
    pair ∈ authorizePairs convert r ↔
      ∃ p ∈ r.parameters, isConsentParameter p.1 = false ∧
        (p.1, (p.2.text convert).getD "") = pair := by
  simp only [authorizePairs, authorizeParameters, List.map_map, List.mem_map,
    List.mem_insertionSort, List.mem_filter, Bool.not_eq_true', Function.comp, and_assoc]

theorem authorizePairs_fold_nodup (convert : List String → Option String)
    (r : AuthorizeRequest fold) : ((authorizePairs convert r).map fun p => fold p.1).Nodup := by
  rw [authorizePairs, authorizeParameters, List.map_map, List.map_map]
  have hfiltered : ((r.parameters.filter fun p => !isConsentParameter p.1).map
      fun p => fold p.1).Nodup :=
    r.names_nodup.sublist (List.filter_sublist.map _)
  exact ((List.perm_insertionSort _ _).map _).nodup_iff.mpr hfiltered

theorem authorizePairs_nodup : (authorizePairs convert r).Nodup :=
  (authorizePairs_fold_nodup convert r).of_map _

theorem authorizePairs_sorted :
    (authorizePairs convert r).Pairwise fun p q : String × String => ordinal p.1 q.1 := by
  rw [authorizePairs, authorizeParameters, List.map_map, List.pairwise_map]
  exact List.pairwise_insertionSort
    (fun p q : String × ParameterValue => ordinal p.1 q.1)
    (r.parameters.filter fun p => !isConsentParameter p.1)

/-- The pairs are one list for each set of them. -/
theorem authorizePairs_ext
    (h : ∀ pair, pair ∈ authorizePairs convert q ↔ pair ∈ authorizePairs convert r) :
    authorizePairs convert q = authorizePairs convert r := by
  apply List.Perm.eq_of_pairwise _ authorizePairs_sorted authorizePairs_sorted
  · exact (List.perm_ext_iff_of_nodup authorizePairs_nodup authorizePairs_nodup).mpr h
  · intro a b ha hb hab hba
    have hname : fold a.1 = fold b.1 := congrArg fold (ordinal_antisymm hab hba)
    exact List.inj_on_of_nodup_map (authorizePairs_fold_nodup convert r) ((h a).mp ha) hb hname

def writeLine (pair : String × String) : List Char := pair.1.toList ++ '=' :: pair.2.toList

theorem canonical_eq_pairs :
    canonical convert r =
      String.ofList ((authorizePairs convert r).flatMap fun pair => writeLine pair ++ ['\n']) := by
  rw [canonical, authorizePairs, List.flatMap_map]
  simp [writeLine]

/-! ## Lines -/

/-- The lines that `name=value` falls into, for each parameter in order. -/
def lines (convert : List String → Option String) (request : AuthorizeRequest fold) :
    List (List Char) :=
  (authorizePairs convert request).flatMap fun pair => (writeLine pair).splitOn '\n'

theorem splitOn_canonical (convert : List String → Option String) (r : AuthorizeRequest fold) :
    (canonical convert r).toList.splitOn '\n' = lines convert r ++ [[]] := by
  have hpairs : ∀ pairs : List (String × String),
      (pairs.flatMap fun pair => writeLine pair ++ ['\n']).splitOn '\n' =
        (pairs.flatMap fun pair => (writeLine pair).splitOn '\n') ++ [[]] := by
    intro pairs
    induction pairs with
    | nil => exact List.splitOn_nil '\n'
    | cons pair pairs ih =>
      rw [List.flatMap_cons, List.flatMap_cons, List.append_assoc, List.singleton_append,
        List.splitOn_append_cons_self, ih, List.append_assoc]
  rw [canonical_eq_pairs, String.toList_ofList, hpairs]
  rfl

/-- Two requests are hashed as one text exactly when they fall into the same lines. -/
theorem canonical_eq_iff :
    canonical convert r = canonical convert q ↔ lines convert r = lines convert q := by
  constructor
  · intro h
    have hsplit := splitOn_canonical convert r
    rw [h, splitOn_canonical] at hsplit
    exact (List.append_cancel_right hsplit).symm
  · intro h
    have hsplit : (canonical convert r).toList.splitOn '\n' =
        (canonical convert q).toList.splitOn '\n' := by
      rw [splitOn_canonical, splitOn_canonical, h]
    have hjoin := congrArg (['\n'].intercalate ·) hsplit
    rw [List.intercalate_splitOn, List.intercalate_splitOn] at hjoin
    exact String.toList_injective hjoin

/-! ## The URL read back -/

/-- Names that the host keeps apart are read with one value each. -/
theorem foldl_addPair {groups : List (String × List String)} {pairs : List (String × String)}
    (h : ((groups.map fun g => fold g.1) ++ pairs.map fun p => fold p.1).Nodup) :
    pairs.foldl (addPair fold) groups = groups ++ pairs.map fun p => (p.1, [p.2]) := by
  induction pairs generalizing groups with
  | nil => rw [List.foldl_nil, List.map_nil, List.append_nil]
  | cons pair pairs ih =>
    have hnew : groups.any (fun g => fold g.1 = fold pair.1) = false := by
      rw [List.any_eq_false]
      intro g hg heq
      have hne := List.nodup_append.mp h |>.2.2 (fold g.1) (List.mem_map_of_mem hg) (fold pair.1)
        (List.mem_map_of_mem List.mem_cons_self)
      exact hne (of_decide_eq_true heq)
    have hadd : addPair fold groups pair = groups ++ [(pair.1, [pair.2])] := by
      rw [addPair, hnew]
      rfl
    rw [List.foldl_cons, hadd, ih, List.append_assoc]
    · rfl
    · rw [List.map_append, List.append_assoc]
      exact h

theorem received_authorizePairs :
    received fold (authorizePairs convert r) =
      (authorizePairs convert r).map fun p => (p.1, .single p.2) := by
  have hne : ∀ p ∈ authorizePairs convert r, p.1 ≠ "" := by
    intro pair hpair
    have ⟨p, hp, _, heq⟩ := mem_authorizePairs.mp hpair
    rw [← heq]
    exact r.names_ne p hp
  have hgroups : (authorizePairs convert r).foldl (addPair fold) [] =
      (authorizePairs convert r).map fun p => (p.1, [p.2]) := by
    have hnodup := authorizePairs_fold_nodup convert r
    rw [foldl_addPair (by simpa using hnodup), List.nil_append]
  rw [received, hgroups, List.filter_map, List.map_map]
  have hall : (authorizePairs convert r).filter
      ((fun g : String × List String => decide (g.1 ≠ "")) ∘ fun p => (p.1, [p.2])) =
      authorizePairs convert r :=
    List.filter_eq_self.mpr fun p hp => decide_eq_true (hne p hp)
  rw [hall]
  rfl

theorem read_consentReturnUrl (path : RequestPath) :
    QueryText.read ((consentReturnUrl convert path r).dropWhile (· ≠ '?')).tail =
      authorizePairs convert r := by
  have hpath : ∀ c ∈ path.val, decide (c ≠ '?') = true := by
    intro c hc
    exact decide_eq_true fun heq => path.property (heq ▸ hc)
  rw [consentReturnUrl, List.dropWhile_append_of_pos hpath, authorizePairs]
  cases authorizeParameters convert r with
  | nil => rfl
  | cons p ps =>
    rw [queryStringCreate, List.dropWhile_cons, if_neg (by decide), List.tail_cons]
    · exact QueryText.read_write _
    · exact List.cons_ne_nil _ _

/-- What the URL is read as: every parameter that is not the consent's, with one value. -/
theorem parametersOf_consentReturnUrl (path : RequestPath) :
    parametersOf fold (consentReturnUrl convert path r) =
      (authorizePairs convert r).map fun p => (p.1, .single p.2) := by
  rw [parametersOf, read_consentReturnUrl, received_authorizePairs]

/-- A name's value is the one it stands with. -/
theorem findParameter_eq_some_iff {parameters : List (String × ParameterValue)}
    (h : (parameters.map fun p => fold p.1).Nodup) {value : ParameterValue} :
    findParameter parameters name = some value ↔ (name, value) ∈ parameters := by
  rw [findParameter, Option.map_eq_some_iff]
  constructor
  · intro ⟨p, hfind, hvalue⟩
    have hnamed := List.find?_some hfind
    have hname : p.1 = name := of_decide_eq_true hnamed
    rw [← hname, ← hvalue]
    exact List.mem_of_find?_eq_some hfind
  · intro hmem
    have hsome : (parameters.find? fun p => decide (p.1 = name)).isSome = true := by
      rw [List.find?_isSome]
      exact ⟨_, hmem, decide_eq_true rfl⟩
    have ⟨p, hfind⟩ := Option.isSome_iff_exists.mp hsome
    have hnamed := List.find?_some hfind
    have hname : p.1 = name := of_decide_eq_true hnamed
    have hsame : p = (name, value) :=
      List.inj_on_of_nodup_map h (List.mem_of_find?_eq_some hfind) hmem (congrArg fold hname)
    exact ⟨p, hfind, congrArg Prod.snd hsame⟩

end Pairs

/-! ## Requests and what they are bound to -/

section Binding

variable {fold : String → String}

def AuthorizeRequest.parameter (request : AuthorizeRequest fold) (name : String) :
    Option ParameterValue :=
  findParameter request.parameters name

/-- The requests differ in the consent fields at most. -/
def SameApart (r r' : AuthorizeRequest fold) : Prop :=
  ∀ name, isConsentParameter name = false → r.parameter name = r'.parameter name

def ParameterValue.isSingle : ParameterValue → Bool
  | single _ => true
  | repeated _ => false

def AuthorizeRequest.allSingle (request : AuthorizeRequest fold) : Bool :=
  request.parameters.all fun p => isConsentParameter p.1 || p.2.isSingle

/-- The fingerprint tells the request from another one, and the URL that the consent screen is
given carries the request on. -/
structure BindsRequest (digest : String → String) (convert : List String → Option String)
    (path : RequestPath) (r r' : AuthorizeRequest fold) : Prop where
  distinct : ¬SameApart r r' →
    consentRequestFingerprint convert digest r ≠ consentRequestFingerprint convert digest r'
  parses : ∀ name, findParameter (parametersOf fold (consentReturnUrl convert path r)) name =
    if isConsentParameter name then none else r.parameter name
  resubmitted : ∀ q : AuthorizeRequest fold,
    (∀ name, isConsentParameter name = false →
      q.parameter name =
        findParameter (parametersOf fold (consentReturnUrl convert path r)) name) →
    consentRequestFingerprint convert digest q = consentRequestFingerprint convert digest r

variable {convert : List String → Option String} {path : RequestPath}
  {r q : AuthorizeRequest fold} {name : String} {value : ParameterValue}

theorem parameter_eq_some_iff : r.parameter name = some value ↔ (name, value) ∈ r.parameters :=
  findParameter_eq_some_iff r.names_nodup

theorem findParameter_consentReturnUrl :
    findParameter (parametersOf fold (consentReturnUrl convert path r)) name = some value ↔
      ∃ text, (name, text) ∈ authorizePairs convert r ∧ value = .single text := by
  have hnodup : ((parametersOf fold (consentReturnUrl convert path r)).map
      fun p => fold p.1).Nodup := by
    rw [parametersOf_consentReturnUrl, List.map_map]
    exact authorizePairs_fold_nodup convert r
  rw [findParameter_eq_some_iff hnodup, parametersOf_consentReturnUrl, List.mem_map]
  constructor
  · intro ⟨pair, hpair, heq⟩
    rw [Prod.mk.injEq] at heq
    exact ⟨pair.2, heq.1 ▸ hpair, heq.2.symm⟩
  · intro ⟨text, htext, heq⟩
    exact ⟨(name, text), htext, by rw [heq]⟩

theorem ParameterValue.exists_of_isSingle (h : value.isSingle = true) :
    ∃ text, value = .single text := by
  cases value with
  | single text => exact ⟨text, rfl⟩
  | repeated values => cases h

/-- The URL is read as the request exactly when no parameter of the request is repeated. -/
theorem parses_iff :
    (∀ name, findParameter (parametersOf fold (consentReturnUrl convert path r)) name =
      if isConsentParameter name then none else r.parameter name) ↔ r.allSingle = true := by
  rw [AuthorizeRequest.allSingle, List.all_eq_true]
  constructor
  · intro h p hp
    rw [Bool.or_eq_true]
    by_cases hconsent : isConsentParameter p.1 = true
    · exact .inl hconsent
    · have hread := h p.1
      rw [if_neg hconsent, parameter_eq_some_iff.mpr hp] at hread
      have ⟨text, _, hvalue⟩ := findParameter_consentReturnUrl.mp hread
      exact .inr (by rw [hvalue]; rfl)
  · intro h name
    apply Option.ext
    intro value
    rw [findParameter_consentReturnUrl]
    have htext : ∀ p ∈ r.parameters, isConsentParameter p.1 = false →
        p.2 = .single ((p.2.text convert).getD "") := by
      intro p hp hconsent
      have hsingle := h p hp
      rw [hconsent, Bool.false_or] at hsingle
      have ⟨text, hvalue⟩ := ParameterValue.exists_of_isSingle hsingle
      rw [hvalue]
      rfl
    constructor
    · intro ⟨text, hpair, hvalue⟩
      have ⟨p, hp, hconsent, heq⟩ := mem_authorizePairs.mp hpair
      rw [Prod.mk.injEq] at heq
      rw [if_neg (by rw [← heq.1, hconsent]; decide), parameter_eq_some_iff, hvalue, ← heq.1,
        ← heq.2, ← htext p hp hconsent]
      exact hp
    · intro hfound
      by_cases hconsent : isConsentParameter name = true
      · rw [if_pos hconsent] at hfound
        cases hfound
      · rw [if_neg hconsent, parameter_eq_some_iff] at hfound
        rw [Bool.not_eq_true] at hconsent
        exact ⟨_, mem_authorizePairs.mpr ⟨(name, value), hfound, hconsent, rfl⟩,
          htext (name, value) hfound hconsent⟩

/-- What comes back from the consent screen is hashed as the request was. -/
theorem authorizePairs_resubmitted
    (h : ∀ name, isConsentParameter name = false →
      q.parameter name =
        findParameter (parametersOf fold (consentReturnUrl convert path r)) name) :
    authorizePairs convert q = authorizePairs convert r := by
  apply authorizePairs_ext
  intro pair
  constructor
  · intro hpair
    have ⟨p, hp, hconsent, heq⟩ := mem_authorizePairs.mp hpair
    have hfound := (h p.1 hconsent).symm.trans (parameter_eq_some_iff.mpr hp)
    have ⟨text, htext, hvalue⟩ := findParameter_consentReturnUrl.mp hfound
    rw [hvalue] at heq
    exact heq ▸ htext
  · intro hpair
    have ⟨p, _, hconsent, heq⟩ := mem_authorizePairs.mp hpair
    have hname : isConsentParameter pair.1 = false := by
      rw [← heq]
      exact hconsent
    have hfound := (h pair.1 hname).trans
      (findParameter_consentReturnUrl.mpr ⟨pair.2, hpair, rfl⟩)
    exact mem_authorizePairs.mpr ⟨_, parameter_eq_some_iff.mp hfound, hname, rfl⟩

/-- Where the digest tells the two texts apart, a request is bound exactly when it and the other
one, if they differ, fall into different lines, and none of its parameters is repeated. -/
theorem bindsRequest_iff (digest : String → String) (convert : List String → Option String)
    (path : RequestPath) (r r' : AuthorizeRequest fold)
    (hdigest : Set.InjOn digest {canonical convert r, canonical convert r'}) :
    BindsRequest digest convert path r r' ↔
      (SameApart r r' ∨ lines convert r ≠ lines convert r') ∧ r.allSingle = true := by
  have hsame : consentRequestFingerprint convert digest r =
      consentRequestFingerprint convert digest r' ↔ lines convert r = lines convert r' := by
    rw [← canonical_eq_iff]
    exact ⟨fun h => hdigest (.inl rfl) (.inr rfl) h, congrArg digest⟩
  constructor
  · intro h
    refine ⟨?_, parses_iff.mp h.parses⟩
    by_cases hapart : SameApart r r'
    · exact .inl hapart
    · exact .inr fun hlines => h.distinct hapart (hsame.mpr hlines)
  · intro ⟨hlines, hsingle⟩
    refine ⟨fun hapart heq => ?_, parses_iff.mpr hsingle, fun q hq => ?_⟩
    · exact hlines.resolve_left hapart (hsame.mp heq)
    · rw [consentRequestFingerprint, consentRequestFingerprint, canonical_eq_pairs,
        canonical_eq_pairs, authorizePairs_resubmitted hq]

end Binding

/-! ## A value with a line feed -/

def plainDigest (text : String) : String := text

def requestOf (parameters : List (String × ParameterValue))
    (hnodup : (parameters.map Prod.fst).Nodup) (hne : ∀ p ∈ parameters, p.1 ≠ "") :
    AuthorizeRequest fun name => name :=
  ⟨parameters, hnodup, hne⟩

def loginRequest : AuthorizeRequest fun name => name :=
  requestOf [("client_id", .single "web"), ("scope", .single "openid")] (by decide) (by decide)

def offlineRequest : AuthorizeRequest fun name => name :=
  requestOf [("client_id", .single "web"), ("scope", .single "offline_access")] (by decide)
    (by decide)

def authorizePath : RequestPath := ⟨"/connect/authorize".toList, by decide⟩

theorem bindsRequest_iff_login :
    BindsRequest plainDigest (fun _ => none) authorizePath loginRequest offlineRequest ↔
      (SameApart loginRequest offlineRequest ∨
        lines (fun _ => none) loginRequest ≠ lines (fun _ => none) offlineRequest) ∧
      loginRequest.allSingle = true :=
  bindsRequest_iff plainDigest _ authorizePath loginRequest offlineRequest
    (Function.Injective.injOn fun _ _ h => h)

/-- One parameter whose value goes on as another parameter would. -/
def smuggledRequest : AuthorizeRequest fun name => name :=
  requestOf [("nonce", .single "n\nscope=openid")] (by decide) (by decide)

def openRequest : AuthorizeRequest fun name => name :=
  requestOf [("nonce", .single "n"), ("scope", .single "openid")] (by decide) (by decide)

/-- Both requests are hashed as one text. -/
theorem smuggled_fingerprint :
    ¬ ∀ (fold digest : String → String) (convert : List String → Option String)
      (path : RequestPath) (r r' : AuthorizeRequest fold),
      Set.InjOn digest {canonical convert r, canonical convert r'} →
      BindsRequest digest convert path r r' := by
  intro h
  have hbinds := h _ plainDigest (fun _ => none) authorizePath smuggledRequest openRequest
    (Function.Injective.injOn fun _ _ h => h)
  apply hbinds.distinct
  · intro hsame
    have hscope := hsame "scope" (by decide)
    revert hscope
    decide
  · decide

end Wallow.Identity
