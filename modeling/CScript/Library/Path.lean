/-
File paths as text, in std:path.

A path stands for a walk, from the root or from where one is.  Normalizing writes down the
location the walk ends at; the current directory is written "." there, and `relative` and
`isInside` take that dot for a name.
-/

import CScript.Foundation.Occurrence
import CScript.Foundation.Walk
import CScript.Runtime.Value

namespace CScript.Path

open Foundation.Walk

abbrev Text := List UInt8

def SEPARATOR : UInt8 := '/'.toUInt8

def split (path : Text) : List Text :=
  (path.splitOn SEPARATOR).filter fun part => part ≠ []

def isAbsolute (path : Text) : Bool :=
  path.head? = some SEPARATOR

/-- One turn of the loop of `normalize`. -/
def resolvePart (absolute : Bool) (out : List Text) (part : Text) : List Text :=
  if part = ascii "." then out
  else if part ≠ ascii ".." then out ++ [part]
  else if out ≠ [] ∧ out.getLast? ≠ some (ascii "..") then out.dropLast
  else if !absolute then out ++ [ascii ".."]
  else out

def normalize (path : Text) : Text :=
  let absolute := isAbsolute path
  let out := (split path).foldl (resolvePart absolute) []
  let joined := [SEPARATOR].intercalate out
  if absolute then SEPARATOR :: joined
  else if joined = [] then ascii "."
  else joined

def stripTrailing (path : Text) : Text :=
  if 1 < path.length ∧ path.getLast? = some SEPARATOR then stripTrailing path.dropLast else path
termination_by path.length
decreasing_by
  rw [List.length_dropLast]
  omega

def stripLeading : Text → Text
  | [] => []
  | c :: rest => if c = SEPARATOR then stripLeading rest else c :: rest

/-- One turn of the loop of `join`. -/
def joinPart (out text : Text) : Text :=
  if text = [] then out
  else if out = [] then text
  else stripTrailing out ++ [SEPARATOR] ++ stripLeading text

def join (parts : List Text) : Text :=
  let out := parts.foldl joinPart []
  if out = [] then ascii "." else normalize out

/-- The first loop of `relative`: how many parts are the same. -/
def sharedParts : List Text → List Text → Nat
  | first :: rest, other :: others => if first = other then sharedParts rest others + 1 else 0
  | _, _ => 0

/-- The error is thrown. -/
def relative (start target : Text) : Except Text Text :=
  if isAbsolute start ≠ isAbsolute target then
    .error (ascii "path.relative needs two paths of the same kind, got '" ++ start ++
      ascii "' and '" ++ target ++ ascii "'")
  else
    let fromParts := split (normalize start)
    let toParts := split (normalize target)
    let shared := sharedParts fromParts toParts
    let out := List.replicate (fromParts.length - shared) (ascii "..") ++ toParts.drop shared
    if out = [] then .ok (ascii ".") else .ok ([SEPARATOR].intercalate out)

def isInside (parent child : Text) : Bool :=
  let parentParts := split (normalize parent)
  let childParts := split (normalize child)
  if isAbsolute parent ≠ isAbsolute child then false
  else if childParts.length ≤ parentParts.length then false
  else parentParts.isPrefixOf childParts

/-! ### What a path stands for -/

def IsName (part : Text) : Prop :=
  part ≠ [] ∧ SEPARATOR ∉ part ∧ part ≠ ascii "." ∧ part ≠ ascii ".."

instance : DecidablePred IsName :=
  fun _ => inferInstanceAs (Decidable (_ ∧ _))

abbrev Name := { part : Text // IsName part }

def readPart (part : Text) : Step Name :=
  if part = ascii ".." then .up
  else if name : IsName part then .into ⟨part, name⟩
  else .stay

def start (path : Text) : Location Name :=
  if isAbsolute path then .absolute [] else .relative 0 []

def meaning (path : Text) : Location Name :=
  (start path).walks ((split path).map readPart)

def parts (location : Location Name) : List Text :=
  List.replicate location.climbs (ascii "..") ++ location.names.map Subtype.val

def text (location : Location Name) : Text :=
  if location.isAbsolute then SEPARATOR :: [SEPARATOR].intercalate (parts location)
  else if parts location = [] then ascii "."
  else [SEPARATOR].intercalate (parts location)

/-! ### Taking apart and putting together -/

def IsPart (part : Text) : Prop :=
  part ≠ [] ∧ SEPARATOR ∉ part

theorem separator_notin_splitOn (path : Text) :
    ∀ part ∈ path.splitOn SEPARATOR, SEPARATOR ∉ part := by
  induction size : path.length using Nat.strong_induction_on generalizing path with
  | _ n ih =>
      rcases Foundation.Occurrence.first_or (· = SEPARATOR) path with
        none | ⟨before, _, after, rfl, rfl, none⟩
      · have absent : SEPARATOR ∉ path := fun there => none _ there rfl
        rw [List.splitOn_eq_singleton absent]
        intro part is
        rwa [List.mem_singleton.mp is]
      · have absent : SEPARATOR ∉ before := fun there => none _ there rfl
        rw [List.splitOn_append_cons_self_of_not_mem absent]
        refine List.forall_mem_cons.mpr ⟨absent, ih after.length ?_ after rfl⟩
        rw [List.length_append, List.length_cons] at size
        omega

theorem isPart_split (path : Text) : ∀ part ∈ split path, IsPart part := by
  intro part there
  obtain ⟨there, some⟩ := List.mem_filter.mp there
  exact ⟨of_decide_eq_true some, separator_notin_splitOn path part there⟩

theorem split_append (path other : Text) :
    split (path ++ SEPARATOR :: other) = split path ++ split other := by
  unfold split
  rw [List.splitOn_append_cons_self, List.filter_append]

theorem split_nil : split [] = [] :=
  rfl

theorem split_cons (path : Text) : split (SEPARATOR :: path) = split path :=
  split_append [] path

theorem split_intercalate {written : List Text} (are : ∀ part ∈ written, IsPart part) :
    split ([SEPARATOR].intercalate written) = written := by
  by_cases none : written = []
  · rw [none]
    rfl
  · unfold split
    rw [List.splitOn_intercalate SEPARATOR (fun part there => (are part there).2) none]
    exact List.filter_eq_self.mpr fun part there => decide_eq_true (are part there).1

theorem split_single {part : Text} (is : IsPart part) : split part = [part] := by
  have whole := @split_intercalate [part] (List.forall_mem_singleton.mpr is)
  rwa [List.intercalate_singleton] at whole

theorem intercalate_head {first : Text} (is : IsPart first) (rest : List Text) :
    ([SEPARATOR].intercalate (first :: rest)).head? ≠ none ∧
      ([SEPARATOR].intercalate (first :: rest)).head? ≠ some SEPARATOR := by
  cases first with
  | nil => exact absurd rfl is.1
  | cons c more =>
      have same : ([SEPARATOR].intercalate ((c :: more) :: rest)).head? = some c := by
        cases rest with
        | nil => rw [List.intercalate_singleton]; rfl
        | cons next others => rw [List.intercalate_cons_cons]; rfl
      rw [same]
      exact ⟨nofun, fun other => is.2 (Option.some.inj other ▸ List.mem_cons_self)⟩

/-! ### Normalizing writes the meaning down -/

theorem isPart_dots : IsPart (ascii "..") := by
  constructor <;> decide

theorem isPart_parts (location : Location Name) : ∀ part ∈ parts location, IsPart part := by
  intro part there
  rcases List.mem_append.mp there with there | there
  · rw [List.eq_of_mem_replicate there]
    exact isPart_dots
  · obtain ⟨name, -, rfl⟩ := List.mem_map.mp there
    exact ⟨name.2.1, name.2.2.1⟩

theorem readPart_name (name : Name) : readPart name.1 = .into name := by
  unfold readPart
  rw [if_neg name.2.2.2.2, dif_pos name.2]

theorem readPart_dot : readPart (ascii ".") = .stay := by
  unfold readPart
  rw [if_neg (by decide), dif_neg (by decide)]

theorem resolvePart_dots_name (location : Location Name) {before : List Name} {last : Name}
    (is : location.names = before ++ [last]) :
    resolvePart location.isAbsolute (parts location) (ascii "..") =
      parts (location.walk .up) := by
  have written : parts location =
      (List.replicate location.climbs (ascii "..") ++ before.map Subtype.val) ++ [last.1] := by
    rw [parts, is, List.map_append, ← List.append_assoc]
    rfl
  have named : some last.1 ≠ some (ascii "..") := fun same => last.2.2.2.2 (Option.some.inj same)
  rw [written, resolvePart, if_neg (by decide), if_neg (not_not_intro rfl),
    if_pos ⟨List.append_ne_nil_of_right_ne_nil _ (List.cons_ne_nil _ _), by
      rwa [List.getLast?_concat]⟩, List.dropLast_concat]
  cases location with
  | absolute names =>
      rw [show names = before ++ [last] from is, Location.walk, List.dropLast_concat]
      rfl
  | relative climbs names =>
      rw [show names = before ++ [last] from is, Location.walk_up_relative]
      rfl

theorem resolvePart_parts (location : Location Name) {part : Text} (is : IsPart part) :
    resolvePart location.isAbsolute (parts location) part =
      parts (location.walk (readPart part)) := by
  by_cases dot : part = ascii "."
  · rw [dot, readPart_dot, resolvePart, if_pos rfl]
    cases location <;> rfl
  by_cases dots : part = ascii ".."
  · subst dots
    rw [readPart, if_pos rfl]
    rcases List.eq_nil_or_concat location.names with none | ⟨before, last, named⟩
    · have written : parts location = List.replicate location.climbs (ascii "..") := by
        rw [parts, none]
        exact List.append_nil _
      have climbing : ¬(parts location ≠ [] ∧ (parts location).getLast? ≠ some (ascii "..")) := by
        rintro ⟨some, other⟩
        rw [written] at some other
        rw [List.getLast?_replicate] at other
        split at other
        · next zero => exact some (by rw [zero]; rfl)
        · exact other rfl
      rw [resolvePart, if_neg dot, if_neg (not_not_intro rfl), if_neg climbing, written]
      cases location with
      | absolute names =>
          rw [show names = [] from none]
          rfl
      | relative climbs names =>
          rw [show names = [] from none]
          show List.replicate climbs _ ++ [_] = List.replicate (climbs + 1) _ ++ []
          rw [List.append_nil, List.replicate_succ']
    · exact resolvePart_dots_name location (named.trans List.concat_eq_append)
  · have name : IsName part := ⟨is.1, is.2, dot, dots⟩
    obtain ⟨-, climbs, names⟩ := Location.walk_into location ⟨part, name⟩
    rw [readPart, if_neg dots, dif_pos name, resolvePart, if_neg dot, if_pos dots, parts, parts,
      climbs, names, List.map_append, List.append_assoc]
    rfl

theorem foldl_resolvePart (location : Location Name) {written : List Text}
    (are : ∀ part ∈ written, IsPart part) :
    written.foldl (resolvePart location.isAbsolute) (parts location) =
      parts (location.walks (written.map readPart)) := by
  induction written generalizing location with
  | nil => rfl
  | cons part rest ih =>
      have first := resolvePart_parts location (are part List.mem_cons_self)
      have further := ih (location.walk (readPart part))
        fun part there => are part (List.mem_cons_of_mem _ there)
      rw [(Location.walk_keeps location (readPart part)).1] at further
      rw [List.foldl_cons, first, further, List.map_cons, Location.walks_cons]

theorem isAbsolute_start (path : Text) : (start path).isAbsolute = isAbsolute path := by
  unfold start
  cases isAbsolute path <;> rfl

theorem isAbsolute_meaning (path : Text) : (meaning path).isAbsolute = isAbsolute path :=
  (Location.walks_keeps _ _).1.trans (isAbsolute_start path)

theorem intercalate_eq_nil {written : List Text} (are : ∀ part ∈ written, IsPart part) :
    [SEPARATOR].intercalate written = [] ↔ written = [] := by
  cases written with
  | nil => exact iff_of_true rfl rfl
  | cons first rest =>
      refine iff_of_false (fun empty => ?_) (List.cons_ne_nil _ _)
      exact (intercalate_head (are first List.mem_cons_self) rest).1 (by rw [empty]; rfl)

theorem normalize_eq (path : Text) : normalize path = text (meaning path) := by
  have out : (split path).foldl (resolvePart (isAbsolute path)) [] = parts (meaning path) := by
    have folded := foldl_resolvePart (start path) (isPart_split path)
    rw [isAbsolute_start] at folded
    have empty : parts (start path) = [] := by
      unfold start
      cases isAbsolute path <;> rfl
    rwa [empty] at folded
  unfold normalize text
  dsimp only
  rw [out, isAbsolute_meaning]
  simp only [intercalate_eq_nil (isPart_parts _)]

/-! ### What has been written means the location it was written for -/

theorem isAbsolute_text (location : Location Name) :
    isAbsolute (text location) = location.isAbsolute := by
  unfold text
  cases kind : location.isAbsolute with
  | true => exact decide_eq_true rfl
  | false =>
      rw [if_neg Bool.false_ne_true]
      cases written : parts location with
      | nil => rw [if_pos rfl]; rfl
      | cons first rest =>
          rw [if_neg (List.cons_ne_nil _ _)]
          exact decide_eq_false (intercalate_head
            (isPart_parts location first (written ▸ List.mem_cons_self)) rest).2

def here : Location Name :=
  .relative 0 []

theorem eq_here {location : Location Name} (kind : location.isAbsolute = false)
    (none : parts location = []) : location = here := by
  obtain ⟨climbs, names⟩ := List.append_eq_nil_iff.mp none
  cases location with
  | absolute names => cases kind
  | relative count names' =>
      rw [show count = 0 from (List.replicate_eq_nil_iff _).mp climbs,
        show names' = [] from List.map_eq_nil_iff.mp names]
      rfl

theorem split_text (location : Location Name) :
    split (text location) =
      if location.isAbsolute = false ∧ parts location = [] then [ascii "."]
      else parts location := by
  unfold text
  cases location.isAbsolute with
  | true =>
      rw [if_pos rfl, split_cons, split_intercalate (isPart_parts location),
        if_neg (fun both => nomatch both.1)]
  | false =>
      rw [if_neg Bool.false_ne_true]
      by_cases none : parts location = []
      · rw [if_pos none, if_pos ⟨rfl, none⟩]
        exact split_single ⟨by decide, by decide⟩
      · rw [if_neg none, if_neg (fun both => none both.2),
          split_intercalate (isPart_parts location)]

theorem map_readPart_names (names : List Name) :
    (names.map Subtype.val).map readPart = names.map .into := by
  rw [List.map_map]
  exact List.map_congr_left fun name _ => readPart_name name

theorem map_readPart_dots (count : Nat) :
    (List.replicate count (ascii "..")).map readPart = List.replicate count .up := by
  rw [List.map_replicate]
  rfl

theorem walks_parts (location : Location Name) :
    (if location.isAbsolute then .absolute [] else .relative 0 [] : Location Name).walks
      ((parts location).map readPart) = location := by
  rw [parts, List.map_append, map_readPart_names, map_readPart_dots, Location.walks_append]
  cases location with
  | absolute names => exact Location.walks_absolute [] names
  | relative climbs names =>
      have climbed := Location.walks_climb (α := Name) 0 climbs
      rw [Nat.zero_add] at climbed
      show (((Location.relative 0 []).walks (List.replicate climbs .up)).walks _) = _
      rw [climbed]
      exact Location.walks_relative climbs [] names

theorem meaning_text (location : Location Name) : meaning (text location) = location := by
  unfold meaning start
  rw [isAbsolute_text, split_text]
  by_cases none : location.isAbsolute = false ∧ parts location = []
  · rw [if_pos none, eq_here none.1 none.2]
    exact congrArg (Location.walks here) (congrArg (fun step => [step]) readPart_dot)
  · rw [if_neg none]
    exact walks_parts location

theorem text_injective : Function.Injective text :=
  Function.LeftInverse.injective meaning_text

theorem normalize_normalize (path : Text) : normalize (normalize path) = normalize path := by
  rw [normalize_eq, normalize_eq, meaning_text]

/-! ### Joining goes on from where the first path ends -/

theorem stripTrailing_spec {path : Text} (some : path ≠ []) :
    split (stripTrailing path) = split path ∧
      (stripTrailing path).head? = path.head? ∧ stripTrailing path ≠ [] := by
  induction path using stripTrailing.induct with
  | case1 path trailing ih =>
      obtain ⟨before, rfl⟩ : ∃ before, path = before ++ [SEPARATOR] :=
        ⟨path.dropLast, (List.dropLast_append_getLast? _ trailing.2).symm⟩
      cases before with
      | nil => exact absurd trailing.1 (by decide)
      | cons c before =>
          rw [List.dropLast_concat] at ih
          rw [stripTrailing, if_pos trailing, List.dropLast_concat, split_append, split_nil,
            List.append_nil]
          exact ih (List.cons_ne_nil _ _)
  | case2 path kept =>
      rw [stripTrailing, if_neg kept]
      exact ⟨rfl, rfl, some⟩

theorem split_stripLeading (path : Text) : split (stripLeading path) = split path := by
  induction path with
  | nil => rfl
  | cons c rest ih =>
      rw [stripLeading]
      split
      · next leads => rw [ih, leads, split_cons]
      · rfl

theorem join_pair {path other : Text} (mayFollow : path ≠ [] ∨ isAbsolute other = false) :
    join [path, other] = text ((meaning path).walks ((split other).map readPart)) := by
  have joined : join [path, other] = normalize (joinPart path other) := by
    have first : joinPart [] path = path := by
      unfold joinPart
      by_cases empty : path = []
      · rw [if_pos empty, empty]
      · rw [if_neg empty, if_pos rfl]
    rw [join, List.foldl_cons, List.foldl_cons, List.foldl_nil, first]
    split
    · next none => rw [none]; rfl
    · rfl
  rw [joined, normalize_eq]
  congr 1
  unfold joinPart
  by_cases none : other = []
  · rw [if_pos none, none]
    rfl
  rw [if_neg none]
  by_cases empty : path = []
  · rw [if_pos empty, empty, meaning, start, mayFollow.resolve_left (not_not_intro empty)]
    rfl
  rw [if_neg empty]
  obtain ⟨same, head, kept⟩ := stripTrailing_spec empty
  have kind : isAbsolute (stripTrailing path ++ [SEPARATOR] ++ stripLeading other) =
      isAbsolute path := by
    unfold isAbsolute
    rw [List.append_assoc, List.head?_append_of_ne_nil _ kept, head]
  rw [meaning, start, kind, List.append_assoc, List.singleton_append, split_append, same,
    split_stripLeading, List.map_append, Location.walks_append]
  rfl

/-! ### From one path to another -/

theorem sharedParts_append (common rest others : List Text) :
    sharedParts (common ++ rest) (common ++ others) = common.length + sharedParts rest others := by
  induction common with
  | nil => rw [List.length_nil, Nat.zero_add]; rfl
  | cons first common ih =>
      rw [List.cons_append, List.cons_append, sharedParts, if_pos rfl, ih, List.length_cons]
      omega

theorem sharedParts_apart {rest others : List Text}
    (apart : ∀ part, rest.head? = some part → others.head? ≠ some part) :
    sharedParts rest others = 0 := by
  cases rest with
  | nil => rfl
  | cons first rest =>
      cases others with
      | nil => rfl
      | cons other others => exact if_neg fun same => apart first rfl (congrArg some same.symm)

theorem exists_common (names others : List Name) :
    ∃ common rest further, names = common ++ rest ∧ others = common ++ further ∧
      ∀ name, rest.head? = some name → further.head? ≠ some name := by
  induction names generalizing others with
  | nil => exact ⟨[], [], others, rfl, rfl, nofun⟩
  | cons name names ih =>
      cases others with
      | nil => exact ⟨[], name :: names, [], rfl, rfl, nofun⟩
      | cons other others =>
          by_cases same : name = other
          · obtain ⟨common, rest, further, rfl, rfl, apart⟩ := ih others
            exact ⟨name :: common, rest, further, rfl, by rw [same]; rfl, apart⟩
          · refine ⟨[], name :: names, other :: others, rfl, rfl, ?_⟩
            rintro _ ⟨⟩ again
            exact same (Option.some.inj again).symm

/-- Where the answer of `relative` leads, from the parts of the two paths. -/
def arrivalBy (from_ : Location Name) (fromParts toParts : List Text) : Location Name :=
  from_.walks (List.replicate (fromParts.length - sharedParts fromParts toParts) .up ++
    (toParts.drop (sharedParts fromParts toParts)).map readPart)

def arrival (from_ target : Location Name) : Location Name :=
  arrivalBy from_ (split (text from_)) (split (text target))

theorem walks_answer {out : List Text} (are : ∀ part ∈ out, IsPart part) :
    ∃ answer, (if out = [] then Except.ok (ascii ".") else .ok ([SEPARATOR].intercalate out) :
        Except Text Text) = .ok answer ∧ isAbsolute answer = false ∧
      ∀ location : Location Name,
        location.walks ((split answer).map readPart) = location.walks (out.map readPart) := by
  cases out with
  | nil =>
      refine ⟨ascii ".", if_pos rfl, by decide, fun location => ?_⟩
      rw [split_single ⟨by decide, by decide⟩, List.map_singleton, readPart_dot]
      rfl
  | cons first rest =>
      refine ⟨_, if_neg (List.cons_ne_nil _ _),
        decide_eq_false (intercalate_head (are first List.mem_cons_self) rest).2,
        fun location => ?_⟩
      rw [split_intercalate are]

theorem relative_eq {path other : Text} (kind : isAbsolute path = isAbsolute other) :
    ∃ answer, relative path other = .ok answer ∧
      join [path, answer] = text (arrival (meaning path) (meaning other)) := by
  have written : ∀ shared count, ∀ part ∈ List.replicate count (ascii "..") ++
      (split (normalize other)).drop shared, IsPart part := by
    intro shared count part there
    rcases List.mem_append.mp there with there | there
    · rw [List.eq_of_mem_replicate there]
      exact isPart_dots
    · exact isPart_split _ part (List.mem_of_mem_drop there)
  unfold relative
  rw [if_neg (not_not_intro kind)]
  dsimp only
  generalize shares : sharedParts (split (normalize path)) (split (normalize other)) = shared
  generalize counts : (split (normalize path)).length - shared = count
  have led : arrival (meaning path) (meaning other) = (meaning path).walks
      ((List.replicate count (ascii "..") ++ (split (normalize other)).drop shared).map
        readPart) := by
    unfold arrival arrivalBy
    rw [← normalize_eq, ← normalize_eq, List.map_append, map_readPart_dots, ← counts, ← shares]
  obtain ⟨answer, answered, downward, walked⟩ := walks_answer (written shared count)
  exact ⟨answer, answered, by rw [join_pair (.inr downward), walked, led]⟩

theorem split_text_here : split (text here) = [ascii "."] := by
  rw [split_text]
  exact if_pos ⟨rfl, rfl⟩

theorem split_text_of_ne {location : Location Name} (other : location ≠ here) :
    split (text location) = parts location := by
  rw [split_text]
  exact if_neg fun none => other (eq_here none.1 none.2)

theorem arrival_level {from_ target : Location Name}
    (kind : from_.isAbsolute = target.isAbsolute) (level : from_.climbs = target.climbs)
    (apart : from_ ≠ here) (other : target ≠ here) : arrival from_ target = target := by
  obtain ⟨common, rest, further, names, others, split⟩ := exists_common from_.names target.names
  have first : parts from_ = (List.replicate target.climbs (ascii "..") ++
      common.map Subtype.val) ++ rest.map Subtype.val := by
    rw [parts, names, level, List.map_append, List.append_assoc]
  have second : parts target = (List.replicate target.climbs (ascii "..") ++
      common.map Subtype.val) ++ further.map Subtype.val := by
    rw [parts, others, List.map_append, List.append_assoc]
  have none : sharedParts (rest.map Subtype.val) (further.map Subtype.val) = 0 := by
    apply sharedParts_apart
    intro part is again
    rw [List.head?_map, Option.map_eq_some_iff] at is again
    obtain ⟨name, is, rfl⟩ := is
    obtain ⟨same, again, equal⟩ := again
    exact split name is (Subtype.ext equal ▸ again)
  have up := Location.walks_up from_ names
  have into := Location.walks_into (from_.walks (List.replicate rest.length .up)) further
  unfold arrival arrivalBy
  rw [split_text_of_ne apart, split_text_of_ne other, first, second, sharedParts_append, none]
  rw [Nat.add_zero, List.drop_left, List.length_append, Nat.add_sub_cancel_left, List.length_map,
    map_readPart_names, Location.walks_append]
  exact Location.ext (into.1.trans (up.1.trans kind)) (into.2.1.trans (up.2.1.trans level))
    (into.2.2.trans ((congrArg (· ++ further) up.2.2).trans others.symm))

theorem arrival_above {climbs more : Nat} {names others : List Name} (positive : 0 < more)
    (apart : Location.relative climbs names ≠ here) :
    arrival (.relative climbs names) (.relative (climbs + more) others) =
      .relative (climbs + more) others := by
  have other : Location.relative (climbs + more) others ≠ here := by
    intro same
    have level : climbs + more = 0 := congrArg Location.climbs same
    omega
  obtain ⟨fewer, rfl⟩ : ∃ fewer, more = fewer + 1 := ⟨more - 1, by omega⟩
  have first : parts (.relative climbs names) =
      List.replicate climbs (ascii "..") ++ names.map Subtype.val := rfl
  have second : parts (.relative (climbs + (fewer + 1)) others) =
      List.replicate climbs (ascii "..") ++ (List.replicate (fewer + 1) (ascii "..") ++
        others.map Subtype.val) := by
    rw [← List.append_assoc, List.replicate_append_replicate]
    rfl
  have none : sharedParts (names.map Subtype.val) (List.replicate (fewer + 1) (ascii "..") ++
      others.map Subtype.val) = 0 := by
    apply sharedParts_apart
    rintro part is ⟨⟩
    rw [List.head?_map, Option.map_eq_some_iff] at is
    obtain ⟨name, -, dots⟩ := is
    exact name.2.2.2.2 dots
  unfold arrival arrivalBy
  rw [split_text_of_ne apart, split_text_of_ne other, first, second, sharedParts_append, none]
  have up := Location.walks_up_relative climbs [] names
  rw [List.nil_append] at up
  rw [Nat.add_zero, List.drop_left, List.length_append, Nat.add_sub_cancel_left, List.length_map,
    List.map_append, map_readPart_names, map_readPart_dots, Location.walks_append, up,
    Location.walks_append, Location.walks_climb]
  exact Location.walks_relative _ [] others

theorem arrival_here {names : List Name} (some : names ≠ []) :
    arrival (.relative 0 names) here = here := by
  have apart : Location.relative 0 names ≠ here := by
    rintro ⟨⟩
    exact some rfl
  have written : parts (.relative 0 names) = names.map Subtype.val := rfl
  have none : sharedParts (names.map Subtype.val) [ascii "."] = 0 := by
    apply sharedParts_apart
    rintro part is ⟨⟩
    rw [List.head?_map, Option.map_eq_some_iff] at is
    obtain ⟨name, -, dot⟩ := is
    exact name.2.2.2.1 dot
  have up := Location.walks_up_relative 0 [] names
  rw [List.nil_append] at up
  unfold arrival arrivalBy
  rw [split_text_of_ne apart, split_text_here, written, none]
  rw [Nat.sub_zero, List.drop_zero, List.length_map, Location.walks_append, up, List.map_singleton,
    readPart_dot]
  rfl

theorem arrival_from_here {climbs : Nat} {names : List Name}
    (other : Location.relative climbs names ≠ here) :
    arrival here (.relative climbs names) = .relative (1 + climbs) names := by
  have none : sharedParts [ascii "."] (parts (.relative climbs names)) = 0 := by
    apply sharedParts_apart
    rintro _ ⟨⟩ is
    rw [parts, List.head?_append] at is
    cases climbs with
    | zero =>
        rw [show (List.replicate (Location.relative 0 names).climbs (ascii "..")).head? = none
          from rfl, Option.none_or, List.head?_map, Option.map_eq_some_iff] at is
        obtain ⟨name, -, dot⟩ := is
        exact name.2.2.2.1 dot
    | succ climbs =>
        exact absurd (Option.some.inj (show some (ascii "..") = some (ascii ".") from is))
          (by decide)
  unfold arrival arrivalBy
  rw [split_text_of_ne other, split_text_here, none]
  rw [List.drop_zero, parts, List.map_append, map_readPart_names, map_readPart_dots,
    Location.walks_append, Location.walks_append]
  have up := Location.walks_climb (α := Name) 0 1
  have further := Location.walks_climb (α := Name) (0 + 1) climbs
  show ((here.walks (List.replicate 1 .up)).walks (List.replicate climbs .up)).walks _ = _
  rw [show here.walks (List.replicate 1 .up) = .relative (0 + 1) [] from up, further, Nat.zero_add]
  exact Location.walks_relative _ [] names

theorem arrival_here_here : arrival here here = here := by
  unfold arrival arrivalBy
  have one : sharedParts [ascii "."] [ascii "."] = 1 := if_pos rfl
  rw [split_text_here, one]
  rfl

theorem arrival_relative (climbs further : Nat) (names others : List Name) :
    arrival (.relative climbs names) (.relative further others) = .relative further others ↔
      (Location.relative climbs names).isAbsolute = true ∨
        climbs ≤ further ∧ (Location.relative climbs names = here →
          Location.relative further others = here) := by
  by_cases apart : Location.relative climbs names = here
  · by_cases other : Location.relative further others = here
    · rw [apart, other]
      refine iff_of_true arrival_here_here (.inr ⟨?_, fun _ => rfl⟩)
      rw [show climbs = 0 from congrArg Location.climbs apart]
      exact Nat.zero_le _
    · rw [apart, arrival_from_here other]
      refine iff_of_false (fun same => ?_) ?_
      · have level : 1 + further = further := congrArg Location.climbs same
        omega
      · rintro (absurd_ | right)
        · cases absurd_
        · exact other (right.2 rfl)
  · rcases Nat.lt_trichotomy climbs further with above | rfl | below
    · obtain ⟨more, rfl⟩ : ∃ more, further = climbs + (more + 1) :=
        ⟨further - climbs - 1, by omega⟩
      refine iff_of_true ?_ (.inr ⟨Nat.le_of_lt above, fun same => absurd same apart⟩)
      exact arrival_above (Nat.succ_pos more) apart
    · refine iff_of_true ?_ (.inr ⟨Nat.le_refl _, fun same => absurd same apart⟩)
      by_cases other : Location.relative climbs others = here
      · obtain rfl : climbs = 0 := congrArg Location.climbs other
        rw [other]
        exact arrival_here fun none => apart (by rw [none]; rfl)
      · exact arrival_level rfl rfl apart other
    · refine iff_of_false (fun same => ?_) ?_
      · have kept := (Location.walks_keeps (Location.relative climbs names) _).2.trans_eq
          (congrArg Location.climbs same)
        exact absurd kept (Nat.not_le_of_lt below)
      · rintro (absurd_ | right)
        · cases absurd_
        · exact absurd right.1 (Nat.not_le_of_lt below)

theorem arrival_eq_iff {from_ target : Location Name}
    (kind : from_.isAbsolute = target.isAbsolute) :
    arrival from_ target = target ↔
      from_.isAbsolute = true ∨
        from_.climbs ≤ target.climbs ∧ (from_ = here → target = here) := by
  cases from_ with
  | absolute names =>
      cases target with
      | relative climbs others => cases kind
      | absolute others =>
          exact iff_of_true (arrival_level kind rfl nofun nofun) (.inl rfl)
  | relative climbs names =>
      cases target with
      | absolute others => cases kind
      | relative further others => exact arrival_relative climbs further names others

/-! ### What is right of `relative` -/

def Expressible (path other : Text) : Prop :=
  ∃ answer, join [path, answer] = normalize other

def RelativeSound (path other : Text) : Prop :=
  (Expressible path other →
      ∃ answer, relative path other = .ok answer ∧ join [path, answer] = normalize other) ∧
    (¬Expressible path other → ∃ message, relative path other = .error message)

def RelativeRight (path other : Text) : Prop :=
  isAbsolute path = true ∨
    (meaning path).climbs ≤ (meaning other).climbs ∧
      (meaning path = here → meaning other = here)

theorem relativeSound_iff {path other : Text} (kind : isAbsolute path = isAbsolute other) :
    RelativeSound path other ↔ RelativeRight path other := by
  obtain ⟨answer, answered, leads⟩ := relative_eq kind
  have kinds : (meaning path).isAbsolute = (meaning other).isAbsolute := by
    rw [isAbsolute_meaning, isAbsolute_meaning, kind]
  have arrives := arrival_eq_iff kinds
  rw [isAbsolute_meaning] at arrives
  have right : RelativeSound path other ↔ arrival (meaning path) (meaning other) = meaning other := by
    constructor
    · rintro ⟨expressed, inexpressible⟩
      by_cases expressible : Expressible path other
      · obtain ⟨other', again, reaches⟩ := expressed expressible
        cases answered.symm.trans again
        rw [leads, normalize_eq] at reaches
        exact text_injective reaches
      · obtain ⟨message, thrown⟩ := inexpressible expressible
        cases answered.symm.trans thrown
    · intro same
      have reaches : join [path, answer] = normalize other := by
        rw [leads, normalize_eq, same]
      exact ⟨fun _ => ⟨answer, answered, reaches⟩, fun none => absurd ⟨answer, reaches⟩ none⟩
  exact right.trans arrives

theorem expressible_iff {path other : Text} (kind : isAbsolute path = isAbsolute other) :
    Expressible path other ↔ (meaning path).climbs ≤ (meaning other).climbs := by
  have kinds : (meaning path).isAbsolute = (meaning other).isAbsolute := by
    rw [isAbsolute_meaning, isAbsolute_meaning, kind]
  constructor
  · rintro ⟨answer, reaches⟩
    by_cases empty : path = []
    · rw [empty]
      exact Nat.zero_le _
    · rw [join_pair (.inl empty), normalize_eq] at reaches
      rw [← text_injective reaches]
      exact (Location.walks_keeps _ _).2
  · intro below
    have are : ∀ part ∈ List.replicate (meaning path).names.length (ascii "..") ++
        (List.replicate ((meaning other).climbs - (meaning path).climbs) (ascii "..") ++
          (meaning other).names.map Subtype.val), IsPart part := by
      intro part there
      rcases List.mem_append.mp there with there | there
      · rw [List.eq_of_mem_replicate there]
        exact isPart_dots
      · rcases List.mem_append.mp there with there | there
        · rw [List.eq_of_mem_replicate there]
          exact isPart_dots
        · obtain ⟨name, -, rfl⟩ := List.mem_map.mp there
          exact ⟨name.2.1, name.2.2.1⟩
    obtain ⟨answer, -, downward, walked⟩ := walks_answer are
    refine ⟨answer, ?_⟩
    rw [join_pair (.inr downward), walked, List.map_append, List.map_append, map_readPart_dots,
      map_readPart_dots, map_readPart_names, normalize_eq]
    exact congrArg text (Location.walks_route kinds below)

/-! ### What is right of `isInside` -/

/-- The parts of the child are those of the parent and at least one more, none of them "..".
The current directory has no parts. -/
def Inside (parent child : Text) : Prop :=
  isAbsolute parent = isAbsolute child ∧
    ∃ more, more ≠ [] ∧ ascii ".." ∉ more ∧ parts (meaning child) = parts (meaning parent) ++ more

/-- The parent is not the current directory with the child below it, and not a number of levels
up with the child further up. -/
def InsideRight (parent child : Text) : Prop :=
  isAbsolute parent = true ∨ isAbsolute child = true ∨ (meaning parent).names ≠ [] ∨
    if (meaning parent).climbs = 0 then (meaning child).climbs ≠ 0 ∨ (meaning child).names = []
    else (meaning child).climbs ≤ (meaning parent).climbs

theorem isInside_eq_true {parent child : Text} :
    isInside parent child = true ↔ isAbsolute parent = isAbsolute child ∧
      ∃ more, more ≠ [] ∧ split (text (meaning child)) = split (text (meaning parent)) ++ more := by
  unfold isInside
  rw [← normalize_eq, ← normalize_eq]
  dsimp only
  by_cases kind : isAbsolute parent = isAbsolute child
  · rw [if_neg (not_not_intro kind)]
    by_cases short : (split (normalize child)).length ≤ (split (normalize parent)).length
    · rw [if_pos short]
      refine iff_of_false Bool.false_ne_true ?_
      rintro ⟨-, more, some, is⟩
      rw [is, List.length_append] at short
      exact some (List.eq_nil_of_length_eq_zero (by omega))
    · rw [if_neg short, List.isPrefixOf_iff_prefix]
      constructor
      · rintro ⟨more, is⟩
        refine ⟨kind, more, ?_, is.symm⟩
        rintro rfl
        exact short (by rw [← is, List.append_nil])
      · rintro ⟨-, more, -, is⟩
        exact ⟨more, is.symm⟩
  · rw [if_pos kind]
    exact iff_of_false Bool.false_ne_true (fun inside => kind inside.1)

theorem count_parts (location : Location Name) :
    (parts location).count (ascii "..") = location.climbs := by
  have named : ascii ".." ∉ location.names.map Subtype.val := by
    intro there
    obtain ⟨name, -, dots⟩ := List.mem_map.mp there
    exact name.2.2.2.2 dots
  rw [parts, List.count_append, List.count_replicate_self, List.count_eq_zero_of_not_mem named,
    Nat.add_zero]

theorem dots_notin_iff {parent child : Location Name} {more : List Text}
    (is : parts child = parts parent ++ more) :
    ascii ".." ∉ more ↔ child.climbs = parent.climbs := by
  have counts := congrArg (List.count (ascii "..")) is
  rw [List.count_append, count_parts, count_parts] at counts
  rw [← List.count_eq_zero]
  omega

theorem dot_notin_parts (location : Location Name) : ascii "." ∉ parts location := by
  intro there
  rcases List.mem_append.mp there with there | there
  · exact absurd (List.eq_of_mem_replicate there) (by decide)
  · obtain ⟨name, -, dot⟩ := List.mem_map.mp there
    exact name.2.2.2.1 dot

theorem climbs_of_name {parent child : Location Name} {more : List Text}
    (named : parent.names ≠ []) (is : parts child = parts parent ++ more) :
    child.climbs = parent.climbs := by
  have counts := congrArg (List.count (ascii "..")) is
  rw [List.count_append, count_parts, count_parts] at counts
  by_contra further
  obtain ⟨name, rest, names⟩ := List.exists_cons_of_ne_nil named
  have above : parent.climbs < child.climbs := by omega
  have one := congrArg (fun list => list[parent.climbs]?) is
  simp only [parts, names, List.map_cons, List.append_assoc, List.cons_append] at one
  rw [List.getElem?_append_left (by rwa [List.length_replicate]), List.getElem?_replicate,
    if_pos above, List.getElem?_append_right (by rw [List.length_replicate]),
    List.length_replicate, Nat.sub_self] at one
  exact name.2.2.2.2 (Option.some.inj one).symm

theorem exists_climbs {parent child : Location Name} (none : parent.names = [])
    (above : parent.climbs < child.climbs) :
    ∃ more, more ≠ [] ∧ parts child = parts parent ++ more := by
  refine ⟨List.replicate (child.climbs - parent.climbs) (ascii "..") ++
    child.names.map Subtype.val, ?_, ?_⟩
  · intro empty
    have zero := (List.replicate_eq_nil_iff _).mp (List.append_eq_nil_iff.mp empty).1
    omega
  · rw [parts, parts, none, List.map_nil, List.append_nil, ← List.append_assoc,
      List.replicate_append_replicate, Nat.add_sub_cancel' (Nat.le_of_lt above)]

theorem isInside_here {parent child : Text} (at_ : meaning parent = here)
    (kind : isAbsolute parent = isAbsolute child) :
    (isInside parent child = true ↔ Inside parent child) ↔
      (meaning child).climbs ≠ 0 ∨ (meaning child).names = [] := by
  have outside : ¬isInside parent child = true := by
    rw [isInside_eq_true, at_, split_text_here]
    rintro ⟨-, more, some, is⟩
    by_cases other : meaning child = here
    · rw [other, split_text_here] at is
      exact some (List.append_cancel_left (is.symm.trans (List.append_nil _).symm))
    · rw [split_text_of_ne other] at is
      exact dot_notin_parts (meaning child) (is ▸ List.mem_cons_self)
  have written : parts (meaning parent) = [] := by
    rw [at_]
    rfl
  rw [iff_false_left outside, Inside, written]
  constructor
  · intro none
    by_contra both
    rw [not_or, not_not] at both
    refine none ⟨kind, parts (meaning child), ?_, ?_, rfl⟩
    · exact fun empty => both.2 (List.map_eq_nil_iff.mp (List.append_eq_nil_iff.mp empty).2)
    · rw [← List.count_eq_zero, count_parts]
      exact both.1
  · rintro other ⟨-, more, some, level, is⟩
    rw [List.nil_append] at is
    rw [← is, ← List.count_eq_zero, count_parts] at level
    rw [← is] at some
    refine other.elim (· level) fun none => some ?_
    rw [parts, level, none]
    rfl

theorem isInside_elsewhere {parent child : Text} (apart : meaning parent ≠ here)
    (kind : isAbsolute parent = isAbsolute child) :
    (isInside parent child = true ↔ Inside parent child) ↔
      ∀ more, more ≠ [] → parts (meaning child) = parts (meaning parent) ++ more →
        (meaning child).climbs = (meaning parent).climbs := by
  by_cases other : meaning child = here
  · have missing : ∀ more, more ≠ [] → parts (meaning child) ≠ parts (meaning parent) ++ more := by
      intro more some is
      rw [other] at is
      exact some (List.append_eq_nil_iff.mp is.symm).2
    refine iff_of_true (iff_of_false ?_ ?_) fun more some is => absurd is (missing more some)
    · rw [isInside_eq_true, other, split_text_here, split_text_of_ne apart]
      rintro ⟨-, more, some, is⟩
      rcases List.append_eq_singleton_iff.mp is.symm with ⟨none, -⟩ | ⟨-, none⟩
      · refine apart (eq_here ?_ none)
        rw [isAbsolute_meaning, kind, ← isAbsolute_meaning, other]
        rfl
      · exact some none
    · rintro ⟨-, more, some, -, is⟩
      exact missing more some is
  · rw [isInside_eq_true, split_text_of_ne apart, split_text_of_ne other, Inside]
    constructor
    · rintro same more some is
      obtain ⟨-, again, -, level, is⟩ := same.mp ⟨kind, more, some, is⟩
      exact (dots_notin_iff is).mp level
    · intro level
      constructor
      · rintro ⟨-, more, some, is⟩
        exact ⟨kind, more, some, (dots_notin_iff is).mpr (level more some is), is⟩
      · rintro ⟨-, more, some, -, is⟩
        exact ⟨kind, more, some, is⟩

theorem climbs_absolute {path : Text} (kind : isAbsolute path = true) :
    (meaning path).climbs = 0 := by
  rw [← isAbsolute_meaning] at kind
  cases is : meaning path with
  | absolute names => rfl
  | relative climbs names =>
      rw [is] at kind
      cases kind

theorem isInside_iff (parent child : Text) :
    (isInside parent child = true ↔ Inside parent child) ↔ InsideRight parent child := by
  unfold InsideRight
  by_cases kind : isAbsolute parent = isAbsolute child
  · cases absolute : isAbsolute parent with
    | true =>
        have apart : meaning parent ≠ here := by
          intro same
          rw [← isAbsolute_meaning, same] at absolute
          cases absolute
        refine iff_of_true ((isInside_elsewhere apart kind).mpr fun more _ _ => ?_) (.inl rfl)
        rw [climbs_absolute absolute, climbs_absolute (kind ▸ absolute)]
    | false =>
        simp only [← kind, absolute, Bool.false_eq_true, false_or]
        by_cases at_ : meaning parent = here
        · rw [isInside_here at_ kind, at_]
          exact (or_iff_right (not_not_intro rfl)).symm
        rw [isInside_elsewhere at_ kind]
        by_cases none : (meaning parent).names = []
        · have positive : (meaning parent).climbs ≠ 0 := by
            intro zero
            refine at_ (eq_here ?_ ?_)
            · rw [isAbsolute_meaning, absolute]
            · rw [parts, zero, none]
              rfl
          rw [if_neg positive, or_iff_right (not_not_intro none)]
          constructor
          · intro level
            by_contra above
            obtain ⟨more, some, is⟩ := exists_climbs none (Nat.lt_of_not_le above)
            exact above (Nat.le_of_eq (level more some is))
          · intro below more some is
            have counts := congrArg (List.count (ascii "..")) is
            rw [List.count_append, count_parts, count_parts] at counts
            omega
        · exact iff_of_true (fun more _ is => climbs_of_name none is) (.inl none)
  · refine iff_of_true (iff_of_false ?_ fun inside => kind inside.1) ?_
    · rw [isInside_eq_true]
      exact fun inside => kind inside.1
    · cases absolute : isAbsolute parent with
      | true => exact .inl rfl
      | false =>
          rw [absolute] at kind
          exact .inr (.inl ((Bool.not_eq_false _).mp fun other => kind other.symm))

/-! ### Path arithmetic -/

/-- Normalizing is sound; `relative` and `isInside` are where no current directory and no ".."
at the front is taken for a name. -/
theorem paths_sound (path other : Text) :
    normalize (normalize path) = normalize path ∧
    (meaning path = meaning other → normalize path = normalize other) ∧
    (isAbsolute path = isAbsolute other →
      (Expressible path other ↔ (meaning path).climbs ≤ (meaning other).climbs) ∧
        (RelativeSound path other ↔ RelativeRight path other)) ∧
    ((isInside path other = true ↔ Inside path other) ↔ InsideRight path other) :=
  ⟨normalize_normalize path,
    fun same => by rw [normalize_eq, normalize_eq, same],
    fun kind => ⟨expressible_iff kind, relativeSound_iff kind⟩,
    isInside_iff path other⟩

/-- From the current directory to "x" the answer is "../x"; from "../a" to "b", where there is
none, it is "../../b".  Nor is "x" found inside of the current directory, but "../.." inside of
"..". -/
theorem dot_taken :
    (relative (ascii ".") (ascii "x") = .ok (ascii "../x") ∧
      ¬RelativeSound (ascii ".") (ascii "x")) ∧
    (relative (ascii "../a") (ascii "b") = .ok (ascii "../../b") ∧
      ¬RelativeSound (ascii "../a") (ascii "b")) ∧
    (isInside (ascii ".") (ascii "x") = false ∧ Inside (ascii ".") (ascii "x")) ∧
    isInside (ascii "..") (ascii "../..") = true ∧ ¬Inside (ascii "..") (ascii "../..") := by
  refine ⟨⟨by decide, ?_⟩, ⟨by decide, ?_⟩, ⟨by decide, ?_⟩, by decide, ?_⟩
  · rw [relativeSound_iff (by decide)]
    rintro (absolute | ⟨-, right⟩)
    · exact absurd absolute (by decide)
    · exact absurd (congrArg (fun location => location.names.length) (right rfl)) (by decide)
  · rw [relativeSound_iff (by decide)]
    rintro (absolute | ⟨below, -⟩)
    · exact absurd absolute (by decide)
    · exact absurd below (by decide)
  · exact ⟨by decide, [ascii "x"], by decide, by decide, by decide⟩
  · rintro ⟨-, more, -, level, is⟩
    exact absurd ((dots_notin_iff is).mp level) (by decide)

end CScript.Path
