/-
URLs taken apart and put back together, in std:url.

Everything is text: the parser cuts at the first "://", the first "#", "?" and "/", the
last "@" and the last colon; the writer puts most parts back as they are.  A default port
is left out, which brings the end of the host to where a port is looked for.
-/

import CScript.Foundation.Occurrence
import CScript.Foundation.OrderedMap
import CScript.Library.Encoding

namespace CScript.Url

open Encoding
open Foundation.Formatted
open Foundation.Occurrence
open Foundation.OrderedMap (put equal Distinct)

abbrev QueryMap := List (Text × Text)

/-- What `parse` answers. -/
@[ext] structure Parts where
  scheme : Text
  user : Text
  password : Text
  host : Text
  /-- Nothing stands for -1. -/
  port : Option Nat
  path : Text
  query : QueryMap
  fragment : Text
  deriving DecidableEq

/-! ### The query string -/

def separatePair (pair : Text) : Text × Text :=
  match indexOf (ascii "=") pair with
  | none => (pair, [])
  | some equals => (pair.take equals, pair.drop (equals + 1))

/-- The loop of `parseQuery`. -/
def parsePairs (out : QueryMap) : List Text → Except Text (Result QueryMap)
  | [] => .ok (.ok out)
  | pair :: rest =>
      if pair = [] then parsePairs out rest
      else do
        match ← percentDecode (separatePair pair).1 with
        | .error message => .ok (.error message)
        | .ok name =>
            match ← percentDecode (separatePair pair).2 with
            | .error message => .ok (.error message)
            | .ok value => parsePairs (put equal out name value) rest

def parseQuery (text : Text) : Except Text (Result QueryMap) :=
  if text = [] then .ok (.ok []) else parsePairs [] (text.splitOn '&'.toUInt8)

/-- A value that goes with a name, as `String` writes it. -/
inductive QueryValue where
  | array (values : List Text)
  | missing
  | single (value : Text)

def addPair (name : Text) : QueryValue → List Text
  | .array values => values.map fun one => percentEncode name ++ ascii "=" ++ percentEncode one
  | .missing => [percentEncode name]
  | .single value => [percentEncode name ++ ascii "=" ++ percentEncode value]

def formatQuery (query : List (Text × QueryValue)) : Text :=
  (ascii "&").intercalate (query.flatMap fun pair => addPair pair.1 pair.2)

/-! ### Taking one apart -/

def toLowerCase (c : UInt8) : UInt8 :=
  if 65 ≤ c ∧ c ≤ 90 then c + 32 else c

def cutBehind (mark : UInt8) (rest : Text) : Text × Text :=
  match indexOf [mark] rest with
  | none => (rest, [])
  | some place => (rest.take place, rest.drop (place + 1))

def cutPath (rest : Text) : Text × Text :=
  match indexOf (ascii "/") rest with
  | none => (rest, [])
  | some slash => (rest.take slash, rest.drop slash)

def cutPassword (credentials : Text) : Text × Text :=
  match indexOf (ascii ":") credentials with
  | none => (credentials, [])
  | some colon => (credentials.take colon, credentials.drop (colon + 1))

def cutCredentials (rest : Text) : (Text × Text) × Text :=
  match lastIndexOf (ascii "@") rest with
  | none => (([], []), rest)
  | some place => (cutPassword (rest.take place), rest.drop (place + 1))

def isDigits (text : Text) : Bool :=
  text.all isdigit

def cutPort (rest : Text) : Result (Text × Option Nat) :=
  match lastIndexOf (ascii ":") rest with
  | none => .ok (rest, none)
  | some colon =>
      if ascii "]" <:+ rest then .ok (rest, none)
      else
        let tail := rest.drop (colon + 1)
        if tail ≠ [] ∧ isDigits tail then
          if 65535 < numeralValue tail then
            .error (ascii "port " ++ tail ++ ascii " is out of range")
          else .ok (rest.take colon, some (numeralValue tail))
        else .ok (rest, none)

def parse (text : Text) : Except Text (Result Parts) :=
  match indexOf (ascii "://") text with
  | none =>
      .ok (.error (ascii "no scheme in '" ++ text ++ ascii "' " ++ [226, 128, 148] ++
        ascii " a URL needs one, as in https://"))
  | some schemeEnd =>
      let scheme := (text.take schemeEnd).map toLowerCase
      if scheme = [] then .ok (.error (ascii "the scheme is empty"))
      else
        let fragmentCut := cutBehind '#'.toUInt8 (text.drop (schemeEnd + 3))
        let queryCut := cutBehind '?'.toUInt8 fragmentCut.1
        let pathCut := cutPath queryCut.1
        let credentialsCut := cutCredentials pathCut.1
        match cutPort credentialsCut.2 with
        | .error message => .ok (.error message)
        | .ok (host, port) =>
            if host = [] then .ok (.error (ascii "no host in '" ++ text ++ ascii "'"))
            else do
              match ← parseQuery queryCut.2 with
              | .error message => .ok (.error message)
              | .ok query =>
                  .ok (.ok {
                    scheme
                    user := credentialsCut.1.1
                    password := credentialsCut.1.2
                    host := host.map toLowerCase
                    port
                    path := if pathCut.2 = [] then ascii "/" else pathCut.2
                    query
                    fragment := fragmentCut.2 })

/-! ### Putting one together -/

def isDefaultPort (scheme : Text) (port : Nat) : Bool :=
  (scheme = ascii "https" && port = 443) || (scheme = ascii "http" && port = 80)

inductive Query where
  | text (written : Text)
  | pairs (entries : List (Text × QueryValue))

/-- What may be given to `format`. -/
structure Given where
  scheme : Option Text := none
  user : Option Text := none
  password : Option Text := none
  host : Option Text := none
  port : Option Nat := none
  path : Option Text := none
  query : Option Query := none
  fragment : Option Text := none

def Query.format : Query → Text
  | .text written => written
  | .pairs entries => formatQuery entries

/-- The error is thrown. -/
def format (parts : Given) : Except Text Text :=
  let scheme := parts.scheme.getD (ascii "https")
  let host := parts.host.getD []
  if host = [] then .error (ascii "a URL needs a host")
  else
    let user := parts.user.getD []
    let password := parts.password.getD []
    let credentials :=
      if user = [] then []
      else user ++ (if password = [] then [] else ascii ":" ++ password) ++ ascii "@"
    let port :=
      match parts.port with
      | none => []
      | some port =>
          if isDefaultPort scheme port then [] else ascii ":" ++ decimalDigits port
    let path := parts.path.getD (ascii "/")
    let query :=
      match parts.query with
      | none => []
      | some query => if query.format = [] then [] else ascii "?" ++ query.format
    let fragment := parts.fragment.getD []
    .ok (scheme ++ ascii "://" ++ credentials ++ host ++ port ++
      (if ascii "/" <+: path then path else ascii "/" ++ path) ++ query ++
      (if fragment = [] then [] else ascii "#" ++ fragment))

def QueryMap.pairs (query : QueryMap) : List (Text × QueryValue) :=
  query.map fun pair => (pair.1, .single pair.2)

def Parts.given (parts : Parts) : Given where
  scheme := parts.scheme
  user := parts.user
  password := parts.password
  host := parts.host
  port := parts.port
  path := parts.path
  query := some (.pairs parts.query.pairs)
  fragment := parts.fragment

/-! ### A query is read back -/

theorem mem_percentEncode {c : UInt8} {text : Text} (there : c ∈ percentEncode text) :
    isUnreserved c = true ∨ c = '%'.toUInt8 := by
  have upper : ∀ digit < 16, isUnreserved (toUpperCase (symbol HEX digit)) = true := by decide
  obtain ⟨code, -, there⟩ := List.mem_flatMap.mp there
  split at there
  · next unreserved => exact .inl (List.mem_singleton.mp there ▸ unreserved)
  · have below := code.toNat_lt
    rw [List.mem_cons, List.mem_cons, List.mem_singleton] at there
    rcases there with is | is | is
    · exact .inr is
    · exact .inl (is ▸ upper _ (by omega))
    · exact .inl (is ▸ upper _ (by omega))

def pairText (pair : Text × Text) : Text :=
  percentEncode pair.1 ++ '='.toUInt8 :: percentEncode pair.2

theorem mem_pairText {c : UInt8} {pair : Text × Text} (there : c ∈ pairText pair) :
    c ≠ '&'.toUInt8 ∧ c ≠ '#'.toUInt8 := by
  have encoded : ∀ {text : Text}, c ∈ percentEncode text → c ≠ '&'.toUInt8 ∧ c ≠ '#'.toUInt8 := by
    intro text there
    rcases mem_percentEncode there with unreserved | rfl
    · constructor <;> rintro rfl <;> cases unreserved
    · exact ⟨by decide, by decide⟩
  rcases List.mem_append.mp there with there | there
  · exact encoded there
  · rcases List.mem_cons.mp there with rfl | there
    · exact ⟨by decide, by decide⟩
    · exact encoded there

theorem separatePair_pairText (pair : Text × Text) :
    separatePair (pairText pair) = (percentEncode pair.1, percentEncode pair.2) := by
  have absent : '='.toUInt8 ∉ percentEncode pair.1 := fun there =>
    (mem_percentEncode there).elim (fun unreserved => nomatch unreserved) (fun same => nomatch same)
  have found : indexOf (ascii "=") (pairText pair) = some (percentEncode pair.1).length :=
    indexOf_present absent _
  rw [separatePair, found, pairText]
  dsimp only
  rw [List.take_left, List.drop_length_add_append, List.drop_one, List.tail_cons]

theorem formatQuery_pairs (query : QueryMap) :
    formatQuery query.pairs = (ascii "&").intercalate (query.map pairText) := by
  rw [formatQuery, QueryMap.pairs, List.flatMap_map]
  congr 1
  induction query with
  | nil => rfl
  | cons pair rest ih =>
      rw [List.flatMap_cons, ih, addPair, List.map_cons, List.singleton_append, List.append_assoc]
      rfl

theorem parsePairs_pairText (out query : QueryMap) (distinct : Distinct equal (out ++ query)) :
    parsePairs out (query.map pairText) = .ok (.ok (out ++ query)) := by
  induction query generalizing out with
  | nil => rw [List.append_nil]; rfl
  | cons pair rest ih =>
      have written : pairText pair ≠ [] :=
        List.append_ne_nil_of_right_ne_nil _ (List.cons_ne_nil _ _)
      have absent : Foundation.OrderedMap.lookup equal out pair.1 = none :=
        Foundation.OrderedMap.lookup_eq_none_iff.mpr fun item there =>
          (List.pairwise_append.mp distinct).2.2 item there pair List.mem_cons_self
      rw [List.map_cons, parsePairs, if_neg written, separatePair_pairText]
      dsimp only
      rw [percentDecode_percentEncode, percentDecode_percentEncode]
      show parsePairs (put equal out pair.1 pair.2) (rest.map pairText) = _
      rw [Foundation.OrderedMap.put_of_absent absent, ih, List.append_assoc, List.singleton_append]
      rw [List.append_assoc, List.singleton_append]
      exact distinct

theorem mem_intercalate {needle : Text} {parts : List Text} {c : UInt8}
    (there : c ∈ needle.intercalate parts) : c ∈ needle ∨ ∃ part ∈ parts, c ∈ part := by
  induction parts with
  | nil => exact absurd there List.not_mem_nil
  | cons part rest ih =>
      cases rest with
      | nil =>
          rw [List.intercalate_singleton] at there
          exact .inr ⟨part, List.mem_cons_self, there⟩
      | cons next more =>
          rw [List.intercalate_cons_cons, List.mem_append, List.mem_append] at there
          rcases there with (there | there) | there
          · exact .inr ⟨part, List.mem_cons_self, there⟩
          · exact .inl there
          · exact (ih there).imp_right fun ⟨part, is, there⟩ =>
              ⟨part, List.mem_cons_of_mem _ is, there⟩

theorem formatQuery_eq_nil {query : QueryMap} (empty : formatQuery query.pairs = []) :
    query = [] := by
  rw [formatQuery_pairs] at empty
  match query with
  | [] => rfl
  | [pair] =>
      rw [List.map_singleton, List.intercalate_singleton] at empty
      exact absurd (List.append_eq_nil_iff.mp empty).2 (List.cons_ne_nil _ _)
  | first :: second :: rest =>
      rw [List.map_cons, List.map_cons, List.intercalate_cons_cons] at empty
      exact absurd (List.append_eq_nil_iff.mp (List.append_eq_nil_iff.mp empty).1).2
        (List.cons_ne_nil _ _)

theorem formatQuery_hash (query : QueryMap) : '#'.toUInt8 ∉ formatQuery query.pairs := by
  rw [formatQuery_pairs]
  intro there
  rcases mem_intercalate there with there | ⟨part, is, there⟩
  · exact nomatch List.mem_singleton.mp there
  · obtain ⟨pair, -, rfl⟩ := List.mem_map.mp is
    exact (mem_pairText there).2 rfl

theorem parseQuery_formatQuery {query : QueryMap} (distinct : Distinct equal query) :
    parseQuery (formatQuery query.pairs) = .ok (.ok query) := by
  by_cases none : query = []
  · rw [none]
    rfl
  · have apart : ∀ part ∈ query.map pairText, '&'.toUInt8 ∉ part := by
      intro part is there
      obtain ⟨pair, -, rfl⟩ := List.mem_map.mp is
      exact (mem_pairText there).1 rfl
    have pieces := List.splitOn_intercalate '&'.toUInt8 apart
      fun empty => none (List.map_eq_nil_iff.mp empty)
    rw [parseQuery, if_neg fun empty => none (formatQuery_eq_nil empty), formatQuery_pairs,
      show ascii "&" = ['&'.toUInt8] from rfl, pieces]
    exact parsePairs_pairText [] query distinct

theorem parsePairs_distinct {out : QueryMap} (distinct : Distinct equal out) {pieces : List Text}
    {query : QueryMap} (read : parsePairs out pieces = .ok (.ok query)) : Distinct equal query := by
  induction pieces generalizing out with
  | nil =>
      cases read
      exact distinct
  | cons pair rest ih =>
      rw [parsePairs] at read
      split at read
      · exact ih distinct read
      · rw [percentDecode_eq, percentDecode_eq] at read
        simp only [bind, Except.bind] at read
        split at read
        · cases read
        · split at read
          · cases read
          · exact ih (distinct.put _ _) read

theorem parseQuery_distinct {text : Text} {query : QueryMap}
    (read : parseQuery text = .ok (.ok query)) : Distinct equal query := by
  rw [parseQuery] at read
  split at read
  · cases read
    exact List.Pairwise.nil
  · exact parsePairs_distinct List.Pairwise.nil read

/-! ### A URL spelled out -/

def IsPort (tail : Text) : Prop :=
  tail ≠ [] ∧ isDigits tail = true

def EndsInPort (host : Text) : Prop :=
  ∃ before tail, host = before ++ ':'.toUInt8 :: tail ∧ IsPort tail

def EndsAuthority (c : UInt8) : Prop :=
  c = '/'.toUInt8 ∨ c = '?'.toUInt8 ∨ c = '#'.toUInt8

def marked (mark : UInt8) : Option Text → Text
  | none => []
  | some part => mark :: part

def credentialsText : Option (Text × Option Text) → Text
  | none => []
  | some (user, password) => user ++ marked ':'.toUInt8 password ++ ['@'.toUInt8]

structure Spelling where
  scheme : Text
  credentials : Option (Text × Option Text)
  host : Text
  port : Option Text
  path : Text
  query : Option Text
  fragment : Option Text

namespace Spelling

def authority (spelling : Spelling) : Text :=
  credentialsText spelling.credentials ++ (spelling.host ++ marked ':'.toUInt8 spelling.port)

def text (spelling : Spelling) : Text :=
  spelling.scheme ++ (ascii "://" ++ (spelling.authority ++ spelling.path ++
    marked '?'.toUInt8 spelling.query ++ marked '#'.toUInt8 spelling.fragment))

structure Valid (spelling : Spelling) : Prop where
  scheme : indexOf (ascii "://") spelling.text = some spelling.scheme.length
  user : ∀ user password, spelling.credentials = some (user, password) → ':'.toUInt8 ∉ user
  host : '@'.toUInt8 ∉ spelling.host
  port : ∀ port, spelling.port = some port → IsPort port
  bare : spelling.port = none → ¬EndsInPort spelling.host
  authority : ∀ c ∈ spelling.authority, ¬EndsAuthority c
  rooted : spelling.path = [] ∨ spelling.path.head? = some '/'.toUInt8
  path : ∀ c ∈ spelling.path, c ≠ '?'.toUInt8 ∧ c ≠ '#'.toUInt8
  query : ∀ query, spelling.query = some query → '#'.toUInt8 ∉ query

def parts (spelling : Spelling) (query : QueryMap) : Parts where
  scheme := spelling.scheme.map toLowerCase
  user := (spelling.credentials.map Prod.fst).getD []
  password := (spelling.credentials.bind Prod.snd).getD []
  host := spelling.host.map toLowerCase
  port := spelling.port.map numeralValue
  path := if spelling.path = [] then ascii "/" else spelling.path
  query
  fragment := spelling.fragment.getD []

def PortFits (spelling : Spelling) : Prop :=
  ∀ port, spelling.port = some port → numeralValue port ≤ 65535

end Spelling

/-! ### Every cut finds its mark -/

theorem mem_marked {c mark : UInt8} {part : Option Text} (there : c ∈ marked mark part) :
    c = mark ∨ ∃ text, part = some text ∧ c ∈ text := by
  cases part with
  | none => exact absurd there List.not_mem_nil
  | some text => exact (List.mem_cons.mp there).imp_right fun there => ⟨text, rfl, there⟩

theorem cutBehind_marked {mark : UInt8} {before : Text} (absent : mark ∉ before)
    (part : Option Text) : cutBehind mark (before ++ marked mark part) = (before, part.getD []) := by
  unfold cutBehind
  cases part with
  | none => rw [marked, List.append_nil, indexOf_absent absent]; rfl
  | some text =>
      rw [marked, indexOf_present absent]
      dsimp only
      rw [List.take_left, List.drop_length_add_append, List.drop_one, List.tail_cons]
      rfl

theorem cutPath_append {before path : Text} (absent : '/'.toUInt8 ∉ before)
    (rooted : path = [] ∨ path.head? = some '/'.toUInt8) :
    cutPath (before ++ path) = (before, path) := by
  unfold cutPath
  rw [show ascii "/" = ['/'.toUInt8] from rfl]
  rcases rooted with rfl | starts
  · rw [List.append_nil, indexOf_absent absent]
  · obtain ⟨rest, rfl⟩ : ∃ rest, path = '/'.toUInt8 :: rest :=
      ⟨path.tail, (List.cons_head?_tail starts).symm⟩
    rw [indexOf_present absent]
    dsimp only
    rw [List.take_left, List.drop_left]

theorem cutPassword_append {user : Text} (absent : ':'.toUInt8 ∉ user) (password : Option Text) :
    cutPassword (user ++ marked ':'.toUInt8 password) = (user, password.getD []) :=
  cutBehind_marked absent password

theorem cutCredentials_append {credentials : Option (Text × Option Text)} {rest : Text}
    (absent : '@'.toUInt8 ∉ rest)
    (valid : ∀ user password, credentials = some (user, password) → ':'.toUInt8 ∉ user) :
    cutCredentials (credentialsText credentials ++ rest) =
      (((credentials.map Prod.fst).getD [], (credentials.bind Prod.snd).getD []), rest) := by
  unfold cutCredentials
  rw [show ascii "@" = ['@'.toUInt8] from rfl]
  match credentials with
  | none =>
      rw [credentialsText, List.nil_append, lastIndexOf_absent absent]
      rfl
  | some (user, password) =>
      rw [credentialsText, List.append_assoc _ ['@'.toUInt8], List.singleton_append,
        lastIndexOf_present absent]
      dsimp only
      rw [List.take_left, List.drop_length_add_append, List.drop_one, List.tail_cons,
        cutPassword_append (valid user password rfl)]
      rfl

theorem colon_notin_port {port : Text} (is : IsPort port) : ':'.toUInt8 ∉ port :=
  fun there => nomatch List.all_eq_true.mp is.2 _ there

theorem cutPort_port (host : Text) {port : Text} (is : IsPort port) :
    cutPort (host ++ ':'.toUInt8 :: port) =
      if 65535 < numeralValue port then
        .error (ascii "port " ++ port ++ ascii " is out of range")
      else .ok (host, some (numeralValue port)) := by
  have bracket : ¬ascii "]" <:+ host ++ ':'.toUInt8 :: port := by
    rintro ⟨before, ends⟩
    have last := congrArg List.getLast? ends
    have split : host ++ ':'.toUInt8 :: port = (host ++ [':'.toUInt8]) ++ port := by
      rw [List.append_assoc, List.singleton_append]
    rw [show ascii "]" = [']'.toUInt8] from rfl, List.getLast?_concat, split,
      List.getLast?_append_of_ne_nil _ is.1] at last
    exact nomatch List.all_eq_true.mp is.2 _ (List.mem_of_getLast? last.symm)
  unfold cutPort
  rw [show ascii ":" = [':'.toUInt8] from rfl, lastIndexOf_present (colon_notin_port is)]
  dsimp only
  rw [if_neg bracket, List.take_left, List.drop_length_add_append, List.drop_one, List.tail_cons]
  exact if_pos is

theorem cutPort_bare {rest : Text} (bare : ¬EndsInPort rest) : cutPort rest = .ok (rest, none) := by
  unfold cutPort
  rw [show ascii ":" = [':'.toUInt8] from rfl]
  rcases last_or ':'.toUInt8 rest with absent | ⟨before, tail, rfl, absent⟩
  · rw [lastIndexOf_absent absent]
  · rw [lastIndexOf_present absent]
    dsimp only
    rw [List.drop_length_add_append, List.drop_one, List.tail_cons]
    split
    · rfl
    · exact if_neg fun is => bare ⟨before, tail, rfl, is⟩

/-! ### What the parser makes of a spelling -/

namespace Spelling

variable {spelling : Spelling}

theorem Valid.ends (valid : spelling.Valid) {c : UInt8} (mark : EndsAuthority c) :
    c ∉ spelling.authority :=
  fun there => valid.authority c there mark

theorem Valid.hash (valid : spelling.Valid) :
    '#'.toUInt8 ∉ spelling.authority ++ spelling.path ++ marked '?'.toUInt8 spelling.query := by
  rw [List.append_assoc, List.mem_append, List.mem_append]
  rintro (there | there | there)
  · exact valid.ends (.inr (.inr rfl)) there
  · exact (valid.path _ there).2 rfl
  · rcases mem_marked there with same | ⟨query, is, there⟩
    · exact nomatch same
    · exact valid.query query is there

theorem Valid.question (valid : spelling.Valid) :
    '?'.toUInt8 ∉ spelling.authority ++ spelling.path := by
  rw [List.mem_append]
  rintro (there | there)
  · exact valid.ends (.inr (.inl rfl)) there
  · exact (valid.path _ there).1 rfl

theorem Valid.lastAt (valid : spelling.Valid) :
    '@'.toUInt8 ∉ spelling.host ++ marked ':'.toUInt8 spelling.port := by
  rw [List.mem_append]
  rintro (there | there)
  · exact valid.host there
  · rcases mem_marked there with same | ⟨port, is, there⟩
    · exact nomatch same
    · exact nomatch List.all_eq_true.mp (valid.port port is).2 _ there

theorem Valid.cutPort (valid : spelling.Valid) :
    Url.cutPort (spelling.host ++ marked ':'.toUInt8 spelling.port) =
        .ok (spelling.host, spelling.port.map numeralValue) ∧ spelling.PortFits ∨
      (∃ message, Url.cutPort (spelling.host ++ marked ':'.toUInt8 spelling.port) =
        .error message) ∧ ¬spelling.PortFits := by
  cases written : spelling.port with
  | none =>
      refine .inl ⟨?_, fun port is => nomatch written.symm.trans is⟩
      rw [marked, List.append_nil, cutPort_bare (valid.bare written)]
      rfl
  | some port =>
      rw [marked, cutPort_port _ (valid.port port written)]
      by_cases large : 65535 < numeralValue port
      · rw [if_pos large]
        exact .inr ⟨⟨_, rfl⟩, fun fits => absurd (fits port written) (Nat.not_le_of_lt large)⟩
      · rw [if_neg large]
        refine .inl ⟨rfl, fun other is => ?_⟩
        cases written.symm.trans is
        exact Nat.le_of_not_lt large

theorem Valid.parse_eq_ok (valid : spelling.Valid) (parts : Parts) :
    parse spelling.text = .ok (.ok parts) ↔
      spelling.scheme ≠ [] ∧ spelling.PortFits ∧ spelling.host ≠ [] ∧
        parseQuery (spelling.query.getD []) = .ok (.ok parts.query) ∧
        parts = spelling.parts parts.query := by
  have scheme : spelling.text.take spelling.scheme.length = spelling.scheme := List.take_left
  have rest : spelling.text.drop (spelling.scheme.length + 3) =
      spelling.authority ++ spelling.path ++ marked '?'.toUInt8 spelling.query ++
        marked '#'.toUInt8 spelling.fragment := by
    rw [text, List.drop_length_add_append]
    rfl
  rw [parse, valid.scheme]
  simp only [scheme, rest, List.map_eq_nil_iff, cutBehind_marked valid.hash,
    cutBehind_marked valid.question, cutPath_append (valid.ends (.inl rfl)) valid.rooted]
  rw [Spelling.authority, cutCredentials_append valid.lastAt valid.user]
  dsimp only
  by_cases empty : spelling.scheme = []
  · rw [if_pos empty]
    exact iff_of_false (fun same => nomatch same) (fun all => all.1 empty)
  rw [if_neg empty]
  rcases valid.cutPort with ⟨cut, fits⟩ | ⟨⟨message, cut⟩, large⟩
  · rw [cut]
    dsimp only
    by_cases hostless : spelling.host = []
    · rw [if_pos hostless]
      exact iff_of_false (fun same => nomatch same) (fun all => all.2.2.1 hostless)
    rw [if_neg hostless]
    match parseQuery (spelling.query.getD []) with
    | .error message => exact iff_of_false (fun same => nomatch same) (fun all => nomatch all.2.2.2.1)
    | .ok (.error message) =>
        exact iff_of_false (fun same => nomatch same) (fun all => nomatch all.2.2.2.1)
    | .ok (.ok query) =>
        refine ⟨?_, fun all => ?_⟩
        · rintro ⟨⟩
          exact ⟨empty, fits, hostless, rfl, rfl⟩
        · cases all.2.2.2.1
          rw [all.2.2.2.2]
          rfl
  · rw [cut]
    exact iff_of_false (fun same => nomatch same) (fun all => large all.2.1)

end Spelling

/-! ### Every text is spelled out -/

theorem exists_marked (mark : UInt8) (rest : Text) :
    ∃ before part, rest = before ++ marked mark part ∧ mark ∉ before := by
  rcases first_or (· = mark) rest with apart | ⟨before, _, after, is, rfl, apart⟩
  · exact ⟨rest, none, by rw [marked, List.append_nil], fun there => apart mark there rfl⟩
  · exact ⟨before, some after, is, fun there => apart _ there rfl⟩

theorem exists_credentials (rest : Text) :
    ∃ credentials host, rest = credentialsText credentials ++ host ∧ '@'.toUInt8 ∉ host ∧
      ∀ user password, credentials = some (user, password) → ':'.toUInt8 ∉ user := by
  rcases last_or '@'.toUInt8 rest with absent | ⟨before, host, rfl, absent⟩
  · exact ⟨none, rest, rfl, absent, fun _ _ is => nomatch is⟩
  · obtain ⟨user, password, rfl, none⟩ := exists_marked ':'.toUInt8 before
    refine ⟨some (user, password), host, ?_, absent, ?_⟩
    · rw [credentialsText, List.append_assoc _ ['@'.toUInt8], List.singleton_append]
    · rintro _ _ ⟨⟩
      exact none

theorem exists_tail (rest : Text) :
    ∃ before path query fragment, rest = before ++ path ++ marked '?'.toUInt8 query ++
        marked '#'.toUInt8 fragment ∧ (∀ c ∈ before, ¬EndsAuthority c) ∧
      (path = [] ∨ path.head? = some '/'.toUInt8) ∧
      (∀ c ∈ path, c ≠ '?'.toUInt8 ∧ c ≠ '#'.toUInt8) ∧
      ∀ text, query = some text → '#'.toUInt8 ∉ text := by
  obtain ⟨rest, fragment, rfl, noHash⟩ := exists_marked '#'.toUInt8 rest
  obtain ⟨rest, query, rfl, noQuestion⟩ := exists_marked '?'.toUInt8 rest
  obtain ⟨before, path, rfl, noSlash⟩ := exists_marked '/'.toUInt8 rest
  simp only [List.mem_append, not_or] at noHash noQuestion
  refine ⟨before, marked '/'.toUInt8 path, query, fragment, rfl, ?_, ?_, ?_, ?_⟩
  · rintro c there (rfl | rfl | rfl)
    · exact noSlash there
    · exact noQuestion.1 there
    · exact noHash.1.1 there
  · cases path with
    | none => exact .inl rfl
    | some text => exact .inr rfl
  · refine fun c there => ⟨?_, ?_⟩ <;> rintro rfl
    · exact noQuestion.2 there
    · exact noHash.1.2 there
  · rintro text rfl there
    exact noHash.2 (List.mem_cons_of_mem _ there)

theorem exists_spelling {text : Text} {place : Nat}
    (found : indexOf (ascii "://") text = some place) :
    ∃ spelling : Spelling, spelling.Valid ∧ spelling.text = text := by
  obtain ⟨rest, is, size⟩ := indexOf_split found
  generalize text.take place = scheme at is size
  obtain ⟨before, path, query, fragment, rfl, inside, rooted, plain, noHash⟩ := exists_tail rest
  obtain ⟨credentials, rest, rfl, noAt, noColon⟩ := exists_credentials before
  by_cases ends : EndsInPort rest
  · obtain ⟨host, port, rfl, isPort⟩ := ends
    refine ⟨⟨scheme, credentials, host, some port, path, query, fragment⟩, ?_, is.symm⟩
    exact {
      scheme := (congrArg (indexOf _) is.symm).trans (found.trans (congrArg some size.symm))
      user := noColon
      host := fun there => noAt (List.mem_append_left _ there)
      port := by
        rintro _ ⟨⟩
        exact isPort
      bare := nofun
      authority := inside
      rooted
      path := plain
      query := noHash }
  · have same : rest ++ marked ':'.toUInt8 none = rest := List.append_nil rest
    have whole : (⟨scheme, credentials, rest, none, path, query, fragment⟩ : Spelling).text =
        text := by
      rw [Spelling.text, Spelling.authority, same]
      exact is.symm
    refine ⟨⟨scheme, credentials, rest, none, path, query, fragment⟩, ?_, whole⟩
    exact {
      scheme := by rw [whole, found, size]
      user := noColon
      host := noAt
      port := nofun
      bare := fun _ => ends
      authority := by
        rw [Spelling.authority, same]
        exact inside
      rooted
      path := plain
      query := noHash }

/-! ### A default port behind another port -/

def DefaultBehindPort (text : Text) : Prop :=
  ∃ scheme before digits port rest,
    text = scheme ++ (ascii "://" ++ (before ++ ':'.toUInt8 :: digits ++ ':'.toUInt8 :: port ++
      rest)) ∧
    indexOf (ascii "://") text = some scheme.length ∧
    (∀ c ∈ before, ¬EndsAuthority c) ∧ IsPort digits ∧ IsPort port ∧
    isDefaultPort (scheme.map toLowerCase) (numeralValue port) = true ∧
    ∀ c, rest.head? = some c → EndsAuthority c

def Spelling.Hidden (spelling : Spelling) : Prop :=
  ∃ port, spelling.port = some port ∧
    isDefaultPort (spelling.scheme.map toLowerCase) (numeralValue port) = true ∧
    EndsInPort spelling.host

theorem port_inside {port : Text} (is : IsPort port) {c : UInt8} (there : c ∈ port) :
    ¬EndsAuthority c := by
  rintro (rfl | rfl | rfl) <;> exact nomatch List.all_eq_true.mp is.2 _ there

theorem Spelling.Valid.default_of_hidden {spelling : Spelling} (valid : spelling.Valid)
    (hidden : spelling.Hidden) : DefaultBehindPort spelling.text := by
  obtain ⟨port, written, default, host, digits, is, isDigits⟩ := hidden
  refine ⟨spelling.scheme, credentialsText spelling.credentials ++ host, digits, port,
    spelling.path ++ marked '?'.toUInt8 spelling.query ++ marked '#'.toUInt8 spelling.fragment,
    ?_, valid.scheme, ?_, isDigits, valid.port port written, default, ?_⟩
  · rw [Spelling.text, Spelling.authority, is, written]
    simp only [marked, List.append_assoc, List.cons_append]
  · intro c there
    apply valid.authority
    rw [Spelling.authority, is]
    rcases List.mem_append.mp there with there | there
    · exact List.mem_append_left _ there
    · exact List.mem_append_right _ (List.mem_append_left _ (List.mem_append_left _ there))
  · intro c first
    rcases valid.rooted with none | rooted
    · rw [none, List.nil_append] at first
      cases query : spelling.query with
      | some text =>
          rw [query] at first
          cases first
          exact .inr (.inl rfl)
      | none =>
          cases fragment : spelling.fragment with
          | some text =>
              rw [query, fragment] at first
              cases first
              exact .inr (.inr rfl)
          | none =>
              rw [query, fragment] at first
              cases first
    · rw [List.append_assoc, List.head?_append, rooted] at first
      cases first
      exact .inl rfl

theorem exists_hidden {text : Text} (default : DefaultBehindPort text) :
    ∃ spelling : Spelling, spelling.Valid ∧ spelling.text = text ∧ spelling.Hidden := by
  obtain ⟨scheme, before, digits, port, rest, is, found, inside, isDigits, isPort, default,
    ends⟩ := default
  obtain ⟨none, path, query, fragment, rfl, outside, rooted, plain, noHash⟩ := exists_tail rest
  obtain rfl : none = [] := by
    cases none with
    | nil => rfl
    | cons c more => exact absurd (ends c rfl) (outside c List.mem_cons_self)
  obtain ⟨credentials, host, rfl, noAt, noColon⟩ := exists_credentials before
  have whole : (⟨scheme, credentials, host ++ ':'.toUInt8 :: digits, some port, path, query,
      fragment⟩ : Spelling).text = text := by
    rw [is, Spelling.text, Spelling.authority]
    simp only [marked, List.append_assoc, List.cons_append, List.nil_append]
  refine ⟨⟨scheme, credentials, host ++ ':'.toUInt8 :: digits, some port, path, query, fragment⟩,
    ?_, whole, port, rfl, default, host, digits, rfl, isDigits⟩
  exact {
    scheme := by rw [whole, found]
    user := noColon
    host := by
      rw [List.mem_append, List.mem_cons]
      rintro (there | there | there)
      · exact noAt there
      · exact nomatch there
      · exact nomatch List.all_eq_true.mp isDigits.2 _ there
    port := by
      rintro _ ⟨⟩
      exact isPort
    bare := nofun
    authority := by
      intro c there
      simp only [Spelling.authority, marked, List.mem_append, List.mem_cons] at there
      rcases there with there | (there | rfl | there) | rfl | there
      · exact inside c (List.mem_append_left _ there)
      · exact inside c (List.mem_append_right _ there)
      · rintro (same | same | same) <;> cases same
      · exact port_inside isDigits there
      · rintro (same | same | same) <;> cases same
      · exact port_inside isPort there
    rooted
    path := plain
    query := noHash }

/-! ### Lower case keeps every cut -/

theorem toLowerCase_toNat (c : UInt8) :
    (toLowerCase c).toNat = if 65 ≤ c.toNat ∧ c.toNat ≤ 90 then c.toNat + 32 else c.toNat := by
  unfold toLowerCase
  by_cases upper : 65 ≤ c.toNat ∧ c.toNat ≤ 90
  · rw [if_pos upper, if_pos (show 65 ≤ c ∧ c ≤ 90 from upper), UInt8.toNat_add]
    exact Nat.mod_eq_of_lt (show c.toNat + 32 < 256 by omega)
  · rw [if_neg upper, if_neg (show ¬(65 ≤ c ∧ c ≤ 90) from upper)]

theorem toLowerCase_eq_iff {c mark : UInt8} (other : mark.toNat < 65) :
    toLowerCase c = mark ↔ c = mark := by
  rw [← UInt8.toNat_inj, ← UInt8.toNat_inj, toLowerCase_toNat]
  split <;> omega

theorem toLowerCase_twice (c : UInt8) : toLowerCase (toLowerCase c) = toLowerCase c := by
  rw [← UInt8.toNat_inj, toLowerCase_toNat (toLowerCase c), toLowerCase_toNat]
  split_ifs <;> omega

theorem map_toLowerCase_twice (text : Text) :
    (text.map toLowerCase).map toLowerCase = text.map toLowerCase := by
  rw [List.map_map]
  exact List.map_congr_left fun c _ => toLowerCase_twice c

theorem mem_toLowerCase {mark : UInt8} (other : mark.toNat < 65) {text : Text} :
    mark ∈ text.map toLowerCase ↔ mark ∈ text := by
  rw [List.mem_map]
  refine ⟨?_, fun there => ⟨mark, there, (toLowerCase_eq_iff other).mpr rfl⟩⟩
  rintro ⟨c, there, is⟩
  exact (toLowerCase_eq_iff other).mp is ▸ there

theorem isdigit_toLowerCase (c : UInt8) : isdigit (toLowerCase c) = isdigit c := by
  rw [Bool.eq_iff_iff, isdigit_iff, isdigit_iff, toLowerCase_toNat]
  split <;> omega

theorem isPort_toLowerCase {tail : Text} : IsPort (tail.map toLowerCase) ↔ IsPort tail := by
  unfold IsPort isDigits
  rw [ne_eq, ne_eq, List.map_eq_nil_iff, List.all_map]
  simp only [Function.comp_def, isdigit_toLowerCase]

theorem endsInPort_toLowerCase {host : Text} :
    EndsInPort (host.map toLowerCase) ↔ EndsInPort host := by
  constructor
  · rintro ⟨before, tail, is, isPort⟩
    obtain ⟨first, second, rfl, rfl, behind⟩ := List.map_eq_append_iff.mp is
    obtain ⟨c, rest, rfl, colon, rfl⟩ := List.map_eq_cons_iff.mp behind
    rw [toLowerCase_eq_iff (by decide)] at colon
    exact ⟨first, rest, by rw [colon], isPort_toLowerCase.mp isPort⟩
  · rintro ⟨before, tail, rfl, isPort⟩
    refine ⟨before.map toLowerCase, tail.map toLowerCase, ?_, isPort_toLowerCase.mpr isPort⟩
    rw [List.map_append, List.map_cons]
    rfl

theorem indexOf_toLowerCase {scheme rest other : Text}
    (found : indexOf (ascii "://") (scheme ++ (ascii "://" ++ rest)) = some scheme.length) :
    indexOf (ascii "://") (scheme.map toLowerCase ++ (ascii "://" ++ other)) =
      some (scheme.map toLowerCase).length := by
  have keeps : ∀ c, ∀ mark ∈ ascii "://", toLowerCase c = mark ↔ c = mark := by
    intro c mark there
    apply toLowerCase_eq_iff
    rw [show ascii "://" = [':'.toUInt8, '/'.toUInt8, '/'.toUInt8] from rfl, List.mem_cons,
      List.mem_cons, List.mem_singleton] at there
    rcases there with rfl | rfl | rfl <;> decide
  have mapped := indexOf_map keeps (scheme ++ (ascii "://" ++ rest))
  rw [found, List.map_append, List.map_append] at mapped
  rw [← List.length_map toLowerCase] at mapped
  exact indexOf_local mapped

/-! ### What is written -/

namespace Parts

def writtenPort (parts : Parts) : Option Nat :=
  parts.port.filter fun port => !isDefaultPort parts.scheme port

def reparsed (parts : Parts) : Parts :=
  { parts with
    password := if parts.user = [] then [] else parts.password
    port := parts.writtenPort }

def orAbsent (part : Text) : Option Text :=
  if part = [] then none else some part

def spelling (parts : Parts) : Spelling where
  scheme := parts.scheme
  credentials :=
    if parts.user = [] then none else some (parts.user, orAbsent parts.password)
  host := parts.host
  port := parts.writtenPort.map decimalDigits
  path := parts.path
  query := orAbsent (formatQuery parts.query.pairs)
  fragment := orAbsent parts.fragment

def spelledWith (parts : Parts) (host : Text) (port : Option Text) : Spelling where
  scheme := parts.spelling.scheme
  credentials := parts.spelling.credentials
  host
  port
  path := parts.spelling.path
  query := parts.spelling.query
  fragment := parts.spelling.fragment

theorem marked_orAbsent (mark : UInt8) (part : Text) :
    marked mark (orAbsent part) = if part = [] then [] else [mark] ++ part := by
  unfold orAbsent
  split <;> rfl

theorem getD_orAbsent (part : Text) : (orAbsent part).getD [] = part := by
  unfold orAbsent
  split
  · next empty => exact empty.symm
  · rfl

theorem format_given {parts : Parts} (host : parts.host ≠ [])
    (rooted : parts.path.head? = some '/'.toUInt8) :
    format parts.given = .ok parts.spelling.text := by
  have path : (if ascii "/" <+: parts.given.path.getD (ascii "/") then
      parts.given.path.getD (ascii "/") else ascii "/" ++ parts.given.path.getD (ascii "/")) =
        parts.path :=
    if_pos ⟨parts.path.tail, List.cons_head?_tail rooted⟩
  have credentials : credentialsText parts.spelling.credentials =
      if parts.user = [] then []
      else parts.user ++ (if parts.password = [] then [] else ascii ":" ++ parts.password) ++
        ascii "@" := by
    unfold spelling
    dsimp only
    split
    · rfl
    · rw [credentialsText, marked_orAbsent]
      rfl
  have port : marked ':'.toUInt8 parts.spelling.port =
      match parts.port with
      | none => []
      | some port =>
          if isDefaultPort parts.scheme port then [] else ascii ":" ++ decimalDigits port := by
    unfold spelling writtenPort
    cases parts.port with
    | none => rfl
    | some port =>
        dsimp only
        rw [Option.filter_some]
        cases isDefaultPort parts.scheme port <;> rfl
  have query : marked '?'.toUInt8 parts.spelling.query =
      if formatQuery parts.query.pairs = [] then [] else ascii "?" ++ formatQuery parts.query.pairs :=
    marked_orAbsent _ _
  have fragment : marked '#'.toUInt8 parts.spelling.fragment =
      if parts.fragment = [] then [] else ascii "#" ++ parts.fragment :=
    marked_orAbsent _ _
  rw [Spelling.text, Spelling.authority, credentials, port, query, fragment, format]
  simp only [path]
  simp only [given, Option.getD_some, if_neg host, Query.format, List.append_assoc]
  rfl

end Parts

/-! ### What is written is a spelling -/

theorem isPort_decimalDigits (port : Nat) : IsPort (decimalDigits port) :=
  ⟨(decimalDigits_numeral port).nonempty, List.all_eq_true.mpr (decimalDigits_numeral port).are⟩

theorem orAbsent_eq_some {part text : Text} (present : Parts.orAbsent part = some text) :
    part = text := by
  unfold Parts.orAbsent at present
  split at present
  · cases present
  · exact Option.some.inj present

section

variable {spelling : Spelling} (valid : spelling.Valid) (query : QueryMap)

include valid

theorem mem_credentials {c : UInt8}
    (there : c ∈ credentialsText (spelling.parts query).spelling.credentials) :
    ¬EndsAuthority c := by
  have inside : ∀ c ∈ credentialsText spelling.credentials, ¬EndsAuthority c :=
    fun c there => valid.authority c (List.mem_append_left _ there)
  revert there inside
  unfold Parts.spelling Spelling.parts
  dsimp only
  rcases spelling.credentials with _ | ⟨user, password⟩
  · exact fun there => absurd there List.not_mem_nil
  · simp only [Option.map_some, Option.getD_some, Option.bind_some]
    split
    · exact fun there => absurd there List.not_mem_nil
    · intro there inside
      rw [credentialsText, List.mem_append, List.mem_append, List.mem_singleton] at there
      rcases there with (there | there) | rfl
      · exact inside c (List.mem_append_left _ (List.mem_append_left _ there))
      · rcases mem_marked there with rfl | ⟨text, is, there⟩
        · rintro (same | same | same) <;> cases same
        · rw [← orAbsent_eq_some is] at there
          cases password with
          | none => exact absurd there List.not_mem_nil
          | some password =>
              exact inside c (List.mem_append_left _
                (List.mem_append_right _ (List.mem_cons_of_mem _ there)))
      · rintro (same | same | same) <;> cases same

theorem rooted_parts : (spelling.parts query).path.head? = some '/'.toUInt8 := by
  show (if spelling.path = [] then ascii "/" else spelling.path).head? = _
  split
  · rfl
  · next some => exact valid.rooted.resolve_left some

theorem written_valid {host : Text} {port : Option Text}
    (same : host ++ marked ':'.toUInt8 port = (spelling.parts query).host ++
      marked ':'.toUInt8 ((spelling.parts query).writtenPort.map decimalDigits))
    (digits : ∀ written, port = some written → IsPort written)
    (bare : port = none → ¬EndsInPort host) :
    ((spelling.parts query).spelledWith host port).Valid := by
  have written : ∀ c ∈ host ++ marked ':'.toUInt8 port,
      c ∈ spelling.host.map toLowerCase ∨ c = ':'.toUInt8 ∨ isdigit c = true := by
    intro c there
    rw [same, List.mem_append] at there
    refine there.imp_right fun there => ?_
    rcases mem_marked there with colon | ⟨text, is, there⟩
    · exact .inl colon
    · obtain ⟨number, -, rfl⟩ := Option.map_eq_some_iff.mp is
      exact .inr ((decimalDigits_numeral number).are c there)
  exact {
    scheme := indexOf_toLowerCase valid.scheme
    user := by
      intro user password is
      unfold Parts.spelledWith Parts.spelling Spelling.parts at is
      dsimp only at is
      split at is
      · cases is
      · cases is
        cases credentials : spelling.credentials with
        | none => exact List.not_mem_nil
        | some pair => exact valid.user pair.1 pair.2 credentials
    host := by
      intro there
      rcases written _ (List.mem_append_left _ there) with there | same | digit
      · exact valid.host ((mem_toLowerCase (by decide)).mp there)
      · cases same
      · cases digit
    port := digits
    bare
    authority := by
      intro c there ends
      rcases List.mem_append.mp there with there | there
      · exact mem_credentials valid query there ends
      · rcases written c there with there | rfl | digit
        · refine valid.authority c (List.mem_append_right _ (List.mem_append_left _ ?_)) ends
          refine (mem_toLowerCase ?_).mp there
          rcases ends with rfl | rfl | rfl <;> decide
        · rcases ends with same | same | same <;> cases same
        · rcases ends with rfl | rfl | rfl <;> cases digit
    rooted := .inr (rooted_parts valid query)
    path := by
      show ∀ c ∈ (if spelling.path = [] then ascii "/" else spelling.path), _
      split
      · intro c there
        rw [List.mem_singleton.mp there]
        exact ⟨by decide, by decide⟩
      · exact valid.path
    query := by
      intro text is
      rw [← orAbsent_eq_some is]
      exact formatQuery_hash _ }

omit valid in
theorem written_text {host : Text} {port : Option Text}
    (same : host ++ marked ':'.toUInt8 port = (spelling.parts query).host ++
      marked ':'.toUInt8 ((spelling.parts query).writtenPort.map decimalDigits)) :
    ((spelling.parts query).spelledWith host port).text =
      (spelling.parts query).spelling.text := by
  unfold Spelling.text Spelling.authority
  simp only [Parts.spelledWith]
  rw [same]
  rfl

end

/-! ### The normal form -/

def NormalForm (parts : Parts) : Prop :=
  ∃ text again, format parts.given = .ok text ∧ parse text = .ok (.ok again) ∧
    format again.given = .ok text ∧ again = parts.reparsed

theorem spelling_reparsed (parts : Parts) : parts.reparsed.spelling = parts.spelling := by
  unfold Parts.spelling Parts.reparsed Parts.writtenPort
  dsimp only
  rw [Option.filter_filter]
  simp only [Bool.and_self]
  split <;> rfl

theorem written_fits {spelling : Spelling} (query : QueryMap) (fits : spelling.PortFits) :
    (spelling.parts query).spelling.PortFits := by
  intro port is
  obtain ⟨number, left, rfl⟩ := Option.map_eq_some_iff.mp is
  obtain ⟨written, present, rfl⟩ :=
    Option.map_eq_some_iff.mp (Option.filter_eq_some_iff.mp left).1
  rw [(decimalDigits_numeral _).value]
  exact fits written present

theorem credentials_spelling (parts : Parts) :
    (parts.spelling.credentials.map Prod.fst).getD [] = parts.reparsed.user ∧
      (parts.spelling.credentials.bind Prod.snd).getD [] = parts.reparsed.password := by
  unfold Parts.spelling Parts.reparsed
  by_cases empty : parts.user = []
  · simp only [empty]
    exact ⟨rfl, rfl⟩
  · simp only [if_neg empty]
    exact ⟨rfl, Parts.getD_orAbsent _⟩

theorem parts_spelling {spelling : Spelling} (valid : spelling.Valid) (query : QueryMap) :
    (spelling.parts query).spelling.parts query = (spelling.parts query).reparsed := by
  have some : (spelling.parts query).path ≠ [] := fun empty =>
    nomatch (rooted_parts valid query).symm.trans (congrArg List.head? empty)
  ext1
  · exact map_toLowerCase_twice spelling.scheme
  · exact (credentials_spelling _).1
  · exact (credentials_spelling _).2
  · exact map_toLowerCase_twice spelling.host
  · show ((spelling.parts query).writtenPort.map decimalDigits).map numeralValue = _
    rw [Option.map_map, show numeralValue ∘ decimalDigits = id from
      funext fun port => (decimalDigits_numeral port).value, Option.map_id]
    rfl
  · exact if_neg some
  · rfl
  · exact Parts.getD_orAbsent _

theorem normalForm_iff {spelling : Spelling} (valid : spelling.Valid) {parts : Parts}
    (read : parse spelling.text = .ok (.ok parts)) : NormalForm parts ↔ ¬spelling.Hidden := by
  obtain ⟨scheme, fits, host, queried, is⟩ := (valid.parse_eq_ok parts).mp read
  have distinct := parseQuery_distinct queried
  generalize parts.query = query at queried is distinct
  subst is
  have hosted : (spelling.parts query).host ≠ [] := fun empty => host (List.map_eq_nil_iff.mp empty)
  have formatted := Parts.format_given hosted (rooted_parts valid query)
  constructor
  · rintro ⟨text, again, written, back, -, is⟩ ⟨port, present, default, ends⟩
    obtain ⟨before, tail, split, isPort⟩ := endsInPort_toLowerCase.mpr ends
    have absent : (spelling.parts query).writtenPort = none := by
      unfold Parts.writtenPort Spelling.parts
      rw [present]
      exact Option.filter_eq_none_iff.mpr fun number is => by
        cases is
        rw [default]
        decide
    have same : before ++ marked ':'.toUInt8 (some tail) = (spelling.parts query).host ++
        marked ':'.toUInt8 ((spelling.parts query).writtenPort.map decimalDigits) := by
      rw [absent]
      exact split.symm.trans (List.append_nil _).symm
    rw [formatted] at written
    cases written
    rw [← written_text query same, Spelling.Valid.parse_eq_ok
      (written_valid valid query same (by rintro _ ⟨⟩; exact isPort) nofun)] at back
    have port := congrArg Parts.port (back.2.2.2.2.symm.trans is)
    rw [Parts.reparsed, absent] at port
    cases port
  · intro shown
    have bare : (spelling.parts query).writtenPort = none →
        ¬EndsInPort (spelling.parts query).host := by
      intro absent ends
      rw [Spelling.parts, endsInPort_toLowerCase] at ends
      cases present : spelling.port with
      | none => exact valid.bare present ends
      | some port =>
          refine shown ⟨port, present, ?_, ends⟩
          unfold Parts.writtenPort Spelling.parts at absent
          rw [present] at absent
          have left := Option.filter_eq_none_iff.mp absent (numeralValue port) rfl
          rwa [Bool.not_eq_true', Bool.not_eq_false] at left
    have written : (spelling.parts query).spelling.Valid :=
      @written_valid _ valid query (spelling.parts query).host _ rfl
        (fun written is => by
          obtain ⟨number, -, rfl⟩ := Option.map_eq_some_iff.mp is
          exact isPort_decimalDigits number)
        (fun absent => bare (Option.map_eq_none_iff.mp absent))
    have back : parse (spelling.parts query).spelling.text =
        .ok (.ok (spelling.parts query).reparsed) := by
      refine (written.parse_eq_ok _).mpr
        ⟨fun empty => scheme (List.map_eq_nil_iff.mp empty), ?_, hosted, ?_, ?_⟩
      · exact written_fits query fits
      · rw [Parts.spelling, Parts.getD_orAbsent]
        exact parseQuery_formatQuery distinct
      · exact (parts_spelling valid query).symm
    refine ⟨_, _, formatted, back, ?_, rfl⟩
    rw [@Parts.format_given (spelling.parts query).reparsed hosted
      (rooted_parts valid query), spelling_reparsed]

/-- A URL that is accepted has a normal form, unless its port is left out behind another one;
and a Map of strings comes back from its query string. -/
theorem url_normalForm (text : Text) (query : QueryMap) :
    (∀ parts, parse text = .ok (.ok parts) → (NormalForm parts ↔ ¬DefaultBehindPort text)) ∧
    (Distinct equal query → parseQuery (formatQuery query.pairs) = .ok (.ok query)) := by
  refine ⟨fun parts read => ?_, parseQuery_formatQuery⟩
  cases found : indexOf (ascii "://") text with
  | none =>
      rw [parse, found] at read
      cases read
  | some place =>
      constructor
      · rintro shown default
        obtain ⟨spelling, valid, rfl, hidden⟩ := exists_hidden default
        exact (normalForm_iff valid read).mp shown hidden
      · intro other
        obtain ⟨spelling, valid, rfl⟩ := exists_spelling found
        exact (normalForm_iff valid read).mpr fun hidden => other (valid.default_of_hidden hidden)

/-- The digits of the host are taken for the port that was left out. -/
theorem port_taken :
    ¬∀ (text : Text) (parts : Parts), parse text = .ok (.ok parts) → NormalForm parts := by
  intro all
  have read : parse (ascii "http://a:90:80/") =
      .ok (.ok ⟨ascii "http", [], [], ascii "a:90", some 80, ascii "/", [], []⟩) := by decide
  obtain ⟨text, again, written, back, -, is⟩ := all _ _ read
  have shorter : format (Parts.given ⟨ascii "http", [], [], ascii "a:90", some 80, ascii "/", [],
      []⟩) = .ok (ascii "http://a:90/") := by decide
  have other : parse (ascii "http://a:90/") =
      .ok (.ok ⟨ascii "http", [], [], ascii "a", some 90, ascii "/", [], []⟩) := by decide
  rw [shorter] at written
  cases written
  rw [other] at back
  cases back
  exact absurd is (by decide)

end CScript.Url
