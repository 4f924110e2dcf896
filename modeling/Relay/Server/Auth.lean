import Relay.Core.Meaning
import Relay.Foundation.Wire

/-! # Authentication and templated permissions

A token's claims select the rules of the configuration, and the claim values are
written into the placeholders of the rules' patterns. The result is used as a filter
without being looked at again, so a claim value that contains a separator or is a
wildcard changes what the pattern means. Verifying the signature, the issuer and the
expiry of a token is a parameter.
-/

namespace Relay

/-! ## Claims -/

/-- A JSON value. What a token says beyond strings, arrays and objects is never read. -/
inductive Value where
  | string (s : String)
  | array (items : List Value)
  | object (fields : List (String × Value))
  | other

namespace Value

def asStr : Value → Option String
  | string s => some s
  | _ => none

def asArray : Value → Option (List Value)
  | array items => some items
  | _ => none

def asObject : Value → Option (List (String × Value))
  | object fields => some fields
  | _ => none

end Value

structure AclRule where
  role : String
  publish : List String
  subscribe : List String

structure AuthConfig where
  identityClaim : String
  rolesClaim : String
  allowedAudiences : List String
  acl : List AclRule

structure Principal where
  identity : String
  acl : Acl

inductive AuthError where
  | invalidToken
  | noIdentity
  | invalidIssuer
  | invalidAudience

/-- Why a token was not accepted; the issuer is told apart from everything else. -/
inductive DecodeError where
  | invalidIssuer
  | other

def mapDecodeError : DecodeError → AuthError
  | .invalidIssuer => .invalidIssuer
  | .other => .invalidToken

/-! ## Substitution -/

abbrev Vars := String → Option String

/-- The loop of `substitute`: copy up to the next opening brace, then the value of the
key up to the closing one. The fuel bounds the placeholders still ahead. -/
def substituteLoop (vars : Vars) : Nat → String → String → Option String
  | 0, _, _ => none
  | fuel + 1, out, rest =>
      match Text.splitOnce '\x7b' rest with
      | none => some (out ++ rest)
      | some (literal, after) => do
          let (key, rest) ← Text.splitOnce '\x7d' after
          let value ← vars key
          substituteLoop vars fuel (out ++ literal ++ value) rest

def substitute (vars : Vars) (pattern : String) : Option String :=
  substituteLoop vars (pattern.toList.length + 1) "" pattern

namespace AuthConfig

def audienceAllowed (cfg : AuthConfig) (aud : Option Value) : Bool :=
  match aud with
  | some (.string s) => [s].any fun a => cfg.allowedAudiences.contains a
  | some (.array items) =>
      let presented := items.filterMap Value.asStr
      if presented = [] then false else presented.any fun a => cfg.allowedAudiences.contains a
  | _ => false

/-- All string claims by name, with the identity under `sub`. -/
def vars (claims : List (String × Value)) (identity : String) : Vars := fun key =>
  if key = "sub" then some identity else (claims.lookup key).bind Value.asStr

/-- The rules of the roles, with their patterns filled in; a pattern that names a
claim the token does not have is left out. -/
def templated (cfg : AuthConfig) (roles : List String) (vars : Vars) : Acl :=
  let rules := cfg.acl.filter fun rule => rule.role = "*" ∨ roles.contains rule.role
  { publish := rules.flatMap fun rule => rule.publish.filterMap (substitute vars)
    subscribe := rules.flatMap fun rule => rule.subscribe.filterMap (substitute vars) }

/-- The principal of a password that is a valid token. -/
def authenticate (cfg : AuthConfig) (decode : String → Except DecodeError Value)
    (password : Option Bytes) : Except AuthError Principal := do
  let raw ← password.elim (throw .invalidToken) pure
  let token ← (String.fromUTF8? ⟨raw.toArray⟩).elim (throw .invalidToken) pure
  let data ← (decode token).mapError mapDecodeError
  let claims ← data.asObject.elim (throw .invalidToken) pure
  if cfg.audienceAllowed (claims.lookup "aud") then
    let identity ←
      ((claims.lookup cfg.identityClaim).bind Value.asStr).elim (throw .noIdentity) pure
    let roles := (((claims.lookup cfg.rolesClaim).bind Value.asArray).getD []).filterMap Value.asStr
    pure { identity, acl := cfg.templated roles (vars claims identity) }
  else throw .invalidAudience

end AuthConfig

/-! ## Templates -/

/-- A pattern as it is read: pieces of text, each followed by the key of a
placeholder, and the text after the last one. -/
structure Template where
  slots : List (String × String)
  tail : String
  texts : ∀ slot ∈ slots, '\x7b' ∉ slot.1.toList
  keys : ∀ slot ∈ slots, '\x7d' ∉ slot.2.toList
  tail_text : '\x7b' ∉ tail.toList

/-- The pattern that placeholders and a last text are read from. -/
def templateText : List (String × String) → String → String
  | [], tail => tail
  | (literal, key) :: slots, tail =>
      literal ++ String.singleton '\x7b' ++ (key ++ String.singleton '\x7d' ++ templateText slots tail)

def filledText (vars : Vars) : List (String × String) → String → String
  | [], tail => tail
  | (literal, key) :: slots, tail => literal ++ (vars key).getD "" ++ filledText vars slots tail

namespace Template

def text (T : Template) : String := templateText T.slots T.tail

def fill (T : Template) (vars : Vars) : String := filledText vars T.slots T.tail

end Template

theorem length_le_templateText (slots : List (String × String)) (tail : String) :
    slots.length ≤ (templateText slots tail).toList.length := by
  induction slots with
  | nil => exact Nat.zero_le _
  | cons slot slots ih =>
      simp only [templateText, String.toList_append, String.toList_singleton, List.length_append,
        List.length_cons, List.length_nil]
      omega

/-- The last text comes last. -/
theorem filledText_tail (vars : Vars) (slots : List (String × String)) (tail : String) :
    filledText vars slots tail = filledText vars slots "" ++ tail := by
  induction slots with
  | nil => exact (String.empty_append).symm
  | cons slot slots ih => simp only [filledText, ih, String.append_assoc]

/-- The rounds of the loop for the placeholders, with the last text still to come. -/
theorem substituteLoop_slots {vars : Vars} {slots : List (String × String)}
    (htexts : ∀ slot ∈ slots, '\x7b' ∉ slot.1.toList)
    (hkeys : ∀ slot ∈ slots, '\x7d' ∉ slot.2.toList) (tail : String) (fuel : Nat)
    (out : String) :
    substituteLoop vars (slots.length + fuel) out (templateText slots tail) =
      if ∀ slot ∈ slots, (vars slot.2).isSome = true then
        substituteLoop vars fuel (out ++ filledText vars slots "") tail
      else none := by
  induction slots generalizing out with
  | nil => simp [templateText, filledText]
  | cons slot slots ih =>
      obtain ⟨literal, key⟩ := slot
      obtain ⟨hliteral, htexts⟩ := List.forall_mem_cons.mp htexts
      obtain ⟨hkey, hkeys⟩ := List.forall_mem_cons.mp hkeys
      have hopen : Text.splitOnce '\x7b' (templateText ((literal, key) :: slots) tail) =
          some (literal, key ++ String.singleton '\x7d' ++ templateText slots tail) :=
        Text.splitOnce_eq_some_iff.mpr ⟨hliteral, rfl⟩
      have hclose : Text.splitOnce '\x7d' (key ++ String.singleton '\x7d' ++
          templateText slots tail) = some (key, templateText slots tail) :=
        Text.splitOnce_eq_some_iff.mpr ⟨hkey, rfl⟩
      rw [List.length_cons, Nat.add_right_comm]
      simp only [substituteLoop, hopen, hclose, Option.bind_eq_bind, Option.bind_some]
      cases hvalue : vars key with
      | none => simp [hvalue]
      | some value =>
          have hall : (∀ slot ∈ (literal, key) :: slots, (vars slot.2).isSome = true) ↔
              ∀ slot ∈ slots, (vars slot.2).isSome = true := by
            rw [List.forall_mem_cons]
            simp [hvalue]
          rw [Option.bind_some, ih htexts hkeys]
          simp only [hall, filledText, hvalue, Option.getD_some, String.append_assoc]

/-- The loop fills a template in when every key has a value, and gives up otherwise. -/
theorem substituteLoop_templateText {vars : Vars} {slots : List (String × String)} {tail : String}
    (htexts : ∀ slot ∈ slots, '\x7b' ∉ slot.1.toList)
    (hkeys : ∀ slot ∈ slots, '\x7d' ∉ slot.2.toList) (htail : '\x7b' ∉ tail.toList) {fuel : Nat}
    (hfuel : slots.length < fuel) (out : String) :
    substituteLoop vars fuel out (templateText slots tail) =
      if ∀ slot ∈ slots, (vars slot.2).isSome = true then some (out ++ filledText vars slots tail)
      else none := by
  obtain ⟨extra, rfl⟩ := Nat.exists_eq_add_of_lt hfuel
  rw [Nat.add_assoc, substituteLoop_slots htexts hkeys, substituteLoop,
    Text.splitOnce_of_not_mem htail, filledText_tail vars slots tail, String.append_assoc]

/-- Substitution fills the placeholders in, if every one of them has a value. -/
theorem Template.substitute_text (T : Template) (vars : Vars) :
    substitute vars T.text =
      if ∀ slot ∈ T.slots, (vars slot.2).isSome = true then some (T.fill vars) else none := by
  have hfuel := Nat.lt_succ_of_le (length_le_templateText T.slots T.tail)
  rw [substitute, text, substituteLoop_templateText T.texts T.keys T.tail_text hfuel, fill,
    String.empty_append]

/-! ## A placeholder that is a level of its own -/

def nextText (back : List (String × String)) (tail : String) : String :=
  (back.head?.map Prod.fst).getD tail

/-- Nothing but separators stands next to the placeholder. -/
structure WholeLevel (front : List (String × String)) (literal : String)
    (back : List (String × String)) (tail : String) : Prop where
  before : front = [] ∧ literal = "" ∨ ∃ text, literal = text ++ String.singleton '/'
  after : back = [] ∧ tail = "" ∨ ∃ text, nextText back tail = String.singleton '/' ++ text

/-- The level that the placeholder is in the pattern: the separators in the texts in
front of it. -/
def position (front : List (String × String)) (literal : String) : Nat :=
  (front.map fun slot => slot.1.toList.count '/').sum + literal.toList.count '/'

/-- The topics that a pattern lets through, for a publish or through a subscription
that it allows. -/
def Grants (pattern topic : String) : Prop :=
  topicMatches pattern topic = true ∨
    ∃ filter : TopicFilter, filterSubsumes pattern filter.asStr = true ∧
      topicMatches filter.asStr topic = true

section Levels

variable {vars : Vars} {front back : List (String × String)} {literal key tail v : String}

/-- A placeholder stands between what is filled in before it and after it. -/
theorem filledText_append (hv : vars key = some v) :
    filledText vars (front ++ (literal, key) :: back) tail =
      filledText vars front literal ++ v ++ filledText vars back tail := by
  induction front with
  | nil => simp [filledText, hv]
  | cons slot front ih =>
      obtain ⟨text, k⟩ := slot
      simp only [List.cons_append, filledText, ih, String.append_assoc]

/-- The levels of the text in front, and of everything that is put behind it. -/
theorem exists_front_levels (vars : Vars) (hbefore : front = [] ∧ literal = "" ∨
      ∃ text, literal = text ++ String.singleton '/') :
    ∃ fs, levels (filledText vars front literal) = fs ++ [""] ∧
      ∀ rest, levels (filledText vars front literal ++ rest) = fs ++ levels rest := by
  rcases hbefore with ⟨rfl, rfl⟩ | ⟨text, rfl⟩
  · refine ⟨[], ?_, fun rest => by rw [filledText, String.empty_append, List.nil_append]⟩
    rw [filledText]
    decide
  · have hends : ∃ start, filledText vars front (text ++ String.singleton '/') =
        start ++ String.singleton '/' := by
      induction front with
      | nil => exact ⟨text, rfl⟩
      | cons slot front ih =>
          obtain ⟨start, hstart⟩ := ih
          exact ⟨slot.1 ++ (vars slot.2).getD "" ++ start, by
            simp only [filledText, hstart, String.append_assoc]⟩
    obtain ⟨start, hstart⟩ := hends
    refine ⟨levels start, ?_, fun rest => ?_⟩
    · have hempty := Text.split_append '/' start ""
      rwa [String.append_empty, ← hstart] at hempty
    · rw [hstart]
      exact Text.split_append '/' start rest

theorem exists_back_levels (vars : Vars) (hafter : back = [] ∧ tail = "" ∨
      ∃ text, nextText back tail = String.singleton '/' ++ text) :
    ∃ bs, ∀ start, levels (start ++ filledText vars back tail) = levels start ++ bs := by
  rcases hafter with ⟨rfl, rfl⟩ | ⟨text, htext⟩
  · exact ⟨[], fun start => by rw [filledText, String.append_empty, List.append_nil]⟩
  · have hbegins : ∃ rest, filledText vars back tail = String.singleton '/' ++ rest := by
      cases back with
      | nil => exact ⟨text, htext⟩
      | cons slot back =>
          have hslot : slot.1 = String.singleton '/' ++ text := htext
          exact ⟨text ++ (vars slot.2).getD "" ++ filledText vars back tail, by
            rw [filledText, hslot]
            simp only [String.append_assoc]⟩
    obtain ⟨rest, hrest⟩ := hbegins
    refine ⟨levels rest, fun start => ?_⟩
    rw [hrest, ← String.append_assoc]
    exact Text.split_append '/' start rest

/-- Values can only add separators in front of a placeholder. -/
theorem position_le_count (vars : Vars) (front : List (String × String)) (literal : String) :
    position front literal ≤ (filledText vars front literal).toList.count '/' := by
  induction front with
  | nil => simp [position, filledText]
  | cons slot front ih =>
      simp only [position, List.map_cons, List.sum_cons, filledText, String.toList_append,
        List.count_append] at ih ⊢
      omega

/-- The text in front has as many levels in the filled pattern as in the pattern
exactly if no value in it has a separator. -/
theorem length_front_levels (hall : ∀ slot ∈ front, (vars slot.2).isSome = true) :
    (levels (filledText vars front literal)).length = position front literal + 1 ↔
      ∀ slot ∈ front, ∀ w, vars slot.2 = some w → '/' ∉ w.toList := by
  rw [levels, Text.length_split, Nat.add_right_cancel_iff]
  induction front with
  | nil => simp [filledText, position]
  | cons slot front ih =>
      obtain ⟨text, k⟩ := slot
      obtain ⟨hhead, hall⟩ := List.forall_mem_cons.mp hall
      obtain ⟨w, hw⟩ := Option.isSome_iff_exists.mp hhead
      have hbound := position_le_count vars front literal
      have hcount : w.toList.count '/' = 0 ↔ '/' ∉ w.toList := List.count_eq_zero
      rw [List.forall_mem_cons, ← ih hall]
      simp only [hw, Option.some.injEq, forall_eq', ← hcount]
      simp only [filledText, hw, Option.getD_some, String.toList_append, List.count_append,
        position, List.map_cons, List.sum_cons] at hbound ⊢
      omega

end Levels

/-! ## Confinement -/

/-- A granted topic matches the pattern level by level, whether it is published to or
subscribed to. -/
theorem matchLevels_of_grants {pattern topic : String} (hgrants : Grants pattern topic) :
    matchLevels (levels pattern) (levels topic) = true := by
  rcases hgrants with hmatch | ⟨filter, hsubsumes, hmatch⟩
  · exact (topicMatches_iff.mp hmatch).2
  · exact matchLevels_of_subsumeLevels hsubsumes (topicMatches_iff.mp hmatch).2

/-- A literal level behind levels without `#` is found in every topic. -/
theorem getElem?_of_matchLevels {fs bs ts : List String} {v : String} (hfront : "#" ∉ fs)
    (hplus : v ≠ "+") (hhash : v ≠ "#") (hmatch : matchLevels (fs ++ v :: bs) ts = true) :
    ts[fs.length]? = some v := by
  induction fs generalizing ts with
  | nil =>
      cases ts with
      | nil =>
          rw [List.nil_append, matchLevels_cons_nil hhash] at hmatch
          cases hmatch
      | cons topicLevel ts =>
          rw [List.nil_append, matchLevels_cons_cons hhash] at hmatch
          split at hmatch
          next hlevel => rw [hlevel.resolve_left hplus, List.length_nil, List.getElem?_cons_zero]
          next => cases hmatch
  | cons level fs ih =>
      rw [List.mem_cons, not_or] at hfront
      have hlevel : level ≠ "#" := Ne.symm hfront.1
      cases ts with
      | nil =>
          rw [List.cons_append, matchLevels_cons_nil hlevel] at hmatch
          cases hmatch
      | cons topicLevel ts =>
          rw [List.cons_append, matchLevels_cons_cons hlevel] at hmatch
          split at hmatch
          · rw [List.length_cons, List.getElem?_cons_succ]
            exact ih hfront.2 hmatch
          · cases hmatch

/-- Any level may stand where a wildcard does, or behind a `#`. -/
theorem matchLevels_replace {fs bs : List String} {v w : String}
    (hwild : "#" ∈ fs ∨ v = "#" ∨ v = "+") :
    matchLevels (fs ++ v :: bs) (fs ++ w :: bs) = true := by
  induction fs with
  | nil =>
      rcases hwild with hmem | rfl | rfl
      · cases hmem
      · exact matchLevels_hash bs _
      · rw [List.nil_append, List.nil_append, matchLevels_cons_cons (by decide),
          if_pos (Or.inl rfl)]
        exact matchLevels_self bs
  | cons level fs ih =>
      by_cases hlevel : level = "#"
      · subst level
        exact matchLevels_hash _ _
      · rw [List.cons_append, List.cons_append, matchLevels_cons_cons hlevel, if_pos (Or.inr rfl)]
        apply ih
        refine hwild.imp_left fun hmem => ?_
        exact (List.mem_cons.mp hmem).resolve_left (Ne.symm hlevel)

/-- A topic with another level in the place of a wildcard is matched: neither its
first level nor the new one brings in the shield of `$` topics. -/
theorem exists_topic_replaced {pattern v : String} {fs bs : List String}
    (hlevels : levels pattern = fs ++ v :: bs) (hwild : "#" ∈ fs ∨ v = "#" ∨ v = "+") :
    ∃ topic w, w ≠ v ∧ topicMatches pattern topic = true ∧ levels topic = fs ++ w :: bs := by
  obtain ⟨w, hfresh, hslash, -, hdollar⟩ := exists_filling [v]
  have hparts : ∀ part ∈ fs ++ w :: bs, '/' ∉ part.toList := by
    intro part hpart
    rcases List.mem_append.mp hpart with hin | hin
    · exact Text.not_mem_of_mem_split (hlevels ▸ List.mem_append_left _ hin :
        part ∈ levels pattern)
    · rcases List.mem_cons.mp hin with rfl | hin
      · exact hslash
      · exact Text.not_mem_of_mem_split (hlevels ▸ List.mem_append_right _
          (List.mem_cons_of_mem v hin) : part ∈ levels pattern)
  have htopic : levels (Text.join '/' (fs ++ w :: bs)) = fs ++ w :: bs :=
    Text.split_join '/' _ (by simp) hparts
  refine ⟨Text.join '/' (fs ++ w :: bs), w, ?_, topicMatches_iff.mpr ⟨?_, ?_⟩, htopic⟩
  · rintro rfl
    exact hfresh (List.mem_singleton_self w)
  · rintro ⟨hbegins, hfirst⟩
    rw [← startsWithChar_levels, htopic] at hbegins
    cases fs with
    | nil =>
        rw [List.nil_append, List.headD_cons, hdollar] at hbegins
        cases hbegins
    | cons level fs =>
        -- the first level is that of the pattern, a wildcard
        rw [List.cons_append, List.headD_cons] at hbegins
        rw [wildcardFirst, hlevels, List.cons_append, List.headD_cons] at hfirst
        rcases Bool.or_eq_true_iff.mp hfirst with hlevel | hlevel
        · rw [of_decide_eq_true hlevel] at hbegins
          cases hbegins
        · rw [of_decide_eq_true hlevel] at hbegins
          cases hbegins
  · rw [hlevels, htopic]
    exact matchLevels_replace hwild

/-- Whether every topic has the value at the place where it stands among the levels of
the pattern. -/
theorem confined_levels_iff {pattern v : String} {fs bs : List String}
    (hlevels : levels pattern = fs ++ (levels v ++ bs)) :
    (∀ topic, Grants pattern topic → (levels topic)[fs.length]? = some v) ↔
      '/' ∉ v.toList ∧ v ≠ "+" ∧ v ≠ "#" ∧ "#" ∉ fs := by
  constructor
  · intro hconfined
    -- the pattern itself is one of the topics, so the value is a single level
    have hself := hconfined pattern (Or.inl (topicMatches_self pattern))
    have hslash : '/' ∉ v.toList := by
      rw [hlevels, List.getElem?_append_right (Nat.le_refl _), Nat.sub_self] at hself
      have hmem : v ∈ levels v := by
        cases hvlevels : levels v with
        | nil => exact absurd hvlevels (levels_ne_nil v)
        | cons first rest =>
            rw [hvlevels, List.cons_append, List.getElem?_cons_zero, Option.some.injEq] at hself
            rw [hself]
            exact List.mem_cons_self
      exact Text.not_mem_of_mem_split hmem
    have hsplit : levels v = [v] := Text.split_of_not_mem hslash
    rw [hsplit, List.singleton_append] at hlevels
    have hliteral : ¬ ("#" ∈ fs ∨ v = "#" ∨ v = "+") := by
      intro hwild
      obtain ⟨topic, w, hne, hmatch, htopic⟩ := exists_topic_replaced hlevels hwild
      have hlevel := hconfined topic (Or.inl hmatch)
      rw [htopic, List.getElem?_append_right (Nat.le_refl _), Nat.sub_self,
        List.getElem?_cons_zero, Option.some.injEq] at hlevel
      exact hne hlevel
    rw [not_or, not_or] at hliteral
    exact ⟨hslash, hliteral.2.2, hliteral.2.1, hliteral.1⟩
  · rintro ⟨hslash, hplus, hhash, hfront⟩ topic hgrants
    have hsplit : levels v = [v] := Text.split_of_not_mem hslash
    have hmatch := matchLevels_of_grants hgrants
    rw [hlevels, hsplit, List.singleton_append] at hmatch
    exact getElem?_of_matchLevels hfront hplus hhash hmatch

/-- A placeholder that is a level of its own confines every topic to its value, at
its place in the pattern, exactly if the value is a single literal level, no value in
front of it has a separator, and no level in front of it is `#` once filled in. -/
theorem placeholder_confined_iff (T : Template) (front back : List (String × String))
    (literal key : String) (hslots : T.slots = front ++ (literal, key) :: back)
    (hwhole : WholeLevel front literal back T.tail) (vars : Vars) (pattern v : String)
    (hpattern : substitute vars T.text = some pattern) (hv : vars key = some v) :
    ((levels (filledText vars front literal)).length = position front literal + 1 ∧
      ∀ topic, Grants pattern topic → (levels topic)[position front literal]? = some v) ↔
    ('/' ∉ v.toList ∧ v ≠ "+" ∧ v ≠ "#" ∧
      (∀ slot ∈ front, ∀ w, vars slot.2 = some w → '/' ∉ w.toList) ∧
      "#" ∉ levels (filledText vars front literal)) := by
  rw [T.substitute_text] at hpattern
  split at hpattern
  next hall =>
    cases hpattern
    -- the levels of the filled pattern are those in front, those of the value and those behind
    obtain ⟨fs, hfs, hbehind⟩ := exists_front_levels vars hwhole.before
    obtain ⟨bs, hbs⟩ := exists_back_levels vars hwhole.after
    have hlevels : levels (T.fill vars) = fs ++ (levels v ++ bs) := by
      rw [Template.fill, hslots, filledText_append hv, String.append_assoc, hbehind, hbs]
    have hconfined := confined_levels_iff hlevels
    have hvalues : (levels (filledText vars front literal)).length = position front literal + 1 ↔
        ∀ slot ∈ front, ∀ w, vars slot.2 = some w → '/' ∉ w.toList :=
      length_front_levels fun slot hslot => hall slot (hslots ▸ List.mem_append_left _ hslot)
    have hlength : (levels (filledText vars front literal)).length = fs.length + 1 := by
      rw [hfs, List.length_append, List.length_singleton]
    have hhash : "#" ∉ levels (filledText vars front literal) ↔ "#" ∉ fs := by
      rw [hfs]
      simp
    rw [hhash]
    constructor
    · rintro ⟨hplace, htopics⟩
      have hposition : position front literal = fs.length := by omega
      rw [hposition] at htopics
      obtain ⟨hslash, hplus, hvhash, hfront⟩ := hconfined.mp htopics
      exact ⟨hslash, hplus, hvhash, hvalues.mp hplace, hfront⟩
    · rintro ⟨hslash, hplus, hvhash, hfrontValues, hfront⟩
      have hplace := hvalues.mpr hfrontValues
      have hposition : position front literal = fs.length := by omega
      refine ⟨hplace, ?_⟩
      rw [hposition]
      exact hconfined.mpr ⟨hslash, hplus, hvhash, hfront⟩
  next => cases hpattern

def driveTemplate : Template where
  slots := [("drive/", "sub")]
  tail := "/#"
  texts := by decide
  keys := by decide
  tail_text := by decide

/-- The subtree of an ordinary identity. -/
theorem placeholder_confined_iff_drive :
    substitute (AuthConfig.vars [] "u1") driveTemplate.text = some "drive/u1/#" ∧
      ∀ topic, Grants "drive/u1/#" topic → (levels topic)[1]? = some "u1" := by
  have hpattern : substitute (AuthConfig.vars [] "u1") driveTemplate.text = some "drive/u1/#" := by
    decide
  have hwhole : WholeLevel [] "drive/" [] "/#" :=
    ⟨Or.inr ⟨"drive", by decide⟩, Or.inr ⟨"#", by decide⟩⟩
  have hiff := placeholder_confined_iff driveTemplate [] [] "drive/" "sub" rfl hwhole
    (AuthConfig.vars [] "u1") "drive/u1/#" "u1" hpattern rfl
  exact ⟨hpattern, (hiff.mpr ⟨by decide, by decide, by decide, nofun, by decide⟩).2⟩

def driveConfig : AuthConfig where
  identityClaim := "sub"
  rolesClaim := "roles"
  allowedAudiences := ["ch-api-drive"]
  acl := [⟨"drive", [driveTemplate.text], [driveTemplate.text]⟩]

def driveClaims (identity : String) : Value :=
  .object [("sub", .string identity), ("roles", .array [.string "drive"]),
    ("aud", .string "ch-api-drive")]

/-- An identity that is a wildcard publishes and subscribes in every subtree, and one
with a separator in a subtree of somebody else. -/
theorem placeholder_escapes :
    (∃ principal, driveConfig.authenticate (fun _ => .ok (driveClaims "+")) (some []) =
        .ok principal ∧ principal.identity = "+" ∧
      principal.acl.canPublish "drive/u2/files/1" = true ∧
      principal.acl.canSubscribe "drive/+/#" = true ∧
      (levels "drive/u2/files/1")[1]? = some "u2") ∧
    (∃ principal, driveConfig.authenticate (fun _ => .ok (driveClaims "u2/files")) (some []) =
        .ok principal ∧ principal.identity = "u2/files" ∧
      principal.acl.canPublish "drive/u2/files/1" = true) := by
  refine ⟨⟨_, rfl, by decide +kernel⟩, ⟨_, rfl, by decide +kernel⟩⟩

end Relay
