import Cti.Ipaddress
import Cti.PyUnicode

set_option autoImplicit false

/- The parts of a URL as Python's `urllib.parse` reads and writes them. `none` is a
`ValueError`. -/
namespace Urllib

open Py (Str Unicode cut rcut total)

structure SplitResult where
  scheme : Str
  netloc : Str
  path : Str
  query : Str
  fragment : Str

structure ParseResult where
  scheme : Str
  netloc : Str
  path : Str
  params : Str
  query : Str
  fragment : Str
  deriving DecidableEq

def usesParams : List Str :=
  ["", "ftp", "hdl", "prospero", "http", "imap", "https", "shttp", "rtsp", "rtsps", "rtspu", "sip",
    "sips", "mms", "sftp", "tel"].map String.toList

def usesNetloc : List Str :=
  ["", "ftp", "http", "gopher", "nntp", "telnet", "imap", "wais", "file", "mms", "https", "shttp",
    "snews", "prospero", "rtsp", "rtsps", "rtspu", "rsync", "svn", "svn+ssh", "sftp", "nfs", "git",
    "git+ssh", "ws", "wss", "itms-services"].map String.toList

def isSchemeChar (c : Char) : Bool := c.isAlphanum || c == '+' || c == '-' || c == '.'

def isControlOrSpace (c : Char) : Bool := c.toNat ≤ 32

def isUnsafe (c : Char) : Bool := c == '\t' || c == '\r' || c == '\n'

variable (U : Unicode)

/-- The text before the first colon is a scheme if it starts with a letter and has
scheme characters only. -/
def splitScheme (url : Str) : Str × Str :=
  match cut (· == ':') url with
  | (scheme, _ :: rest) =>
      if scheme.head?.any Char.isAlpha && scheme.all isSchemeChar then (Py.lower U scheme, rest)
      else ([], url)
  | (_, []) => ([], url)

def isNetlocEnd (c : Char) : Bool := c == '/' || c == '?' || c == '#'

def splitNetloc (url : Str) : Str × Str :=
  match url with
  | '/' :: '/' :: rest => cut isNetlocEnd rest
  | _ => ([], url)

/-- An IPv6 address, or `v`, hexadecimal digits, a dot and something more. -/
def bracketedHostOk (hostname : Str) : Bool :=
  match hostname with
  | 'v' :: rest =>
      match cut (fun c => !Ipaddress.isHexDigit c) rest with
      | (_ :: _, '.' :: more) => more ≠ [] && !more.contains '\n'
      | _ => false
  | _ => (Ipaddress.IPv6Address.parse hostname).isSome

/-- `_check_bracketed_netloc`. -/
def bracketedNetlocOk (netloc : Str) : Bool :=
  let host := (rcut (· == '@') netloc).2
  match cut (· == '[') host with
  | (before, _ :: bracketed) =>
      let (hostname, close) := cut (· == ']') bracketed
      before = [] && (close.tail = [] || close.tail.head? = some ':') && bracketedHostOk hostname
  | (_, []) => bracketedHostOk (cut (· == ':') host).1

/-- `_checknetloc`: no character may decompose into a delimiter. -/
def nfkcOk (netloc : Str) : Bool :=
  netloc.all Py.isAscii ||
    let plain := netloc.filter fun c => !"@:#?".toList.contains c
    U.nfkc plain = plain || !"/?#@:".toList.any (U.nfkc plain).contains

def netlocOk (netloc : Str) : Bool :=
  (netloc.contains '[' == netloc.contains ']') &&
    (!netloc.contains '[' || bracketedNetlocOk netloc) && nfkcOk U netloc

def urlsplit (url : Str) : Option SplitResult :=
  let url := (Py.lstrip isControlOrSpace url).filter fun c => !isUnsafe c
  let (scheme, url) := splitScheme U url
  let (netloc, url) := splitNetloc url
  let (url, fragment) := cut (· == '#') url
  let (path, query) := cut (· == '?') url
  if netlocOk U netloc then some ⟨scheme, netloc, path, query.tail, fragment.tail⟩ else none

/-- The parameters of the last segment of a path. -/
def splitParams (url : Str) : Str × Str :=
  let (directory, last) := rcut (· == '/') url
  let (segment, params) := cut (· == ';') last
  (directory ++ segment, params.tail)

def urlparse (url : Str) : Option ParseResult := do
  let split ← urlsplit U url
  let (path, params) :=
    if split.scheme ∈ usesParams ∧ ';' ∈ split.path then splitParams split.path
    else (split.path, [])
  return ⟨split.scheme, split.netloc, path, params, split.query, split.fragment⟩

/-- The `hostname` of a netloc: what stands before the port, in lower case up to the zone. -/
def hostname (netloc : Str) : Option Str :=
  let hostinfo := (rcut (· == '@') netloc).2
  let host := match cut (· == '[') hostinfo with
    | (_, _ :: bracketed) => (cut (· == ']') bracketed).1
    | (_, []) => (cut (· == ':') hostinfo).1
  if host = [] then none
  else
    let (name, zone) := cut (· == '%') host
    some (Py.lower U name ++ zone)

/-- A part together with its delimiter, or nothing if the part is empty. -/
def joinPart (delimiter : Char) (part : Str) : Str := if part = [] then [] else delimiter :: part

def urlunsplit (split : SplitResult) : Str :=
  let url :=
    if split.netloc ≠ [] then
      '/' :: '/' :: split.netloc ++
        (if split.path ≠ [] ∧ split.path.head? ≠ some '/' then '/' :: split.path else split.path)
    else if ['/', '/'].isPrefixOf split.path then '/' :: '/' :: split.path
    else if split.scheme ≠ [] ∧ split.scheme ∈ usesNetloc ∧
        (split.path = [] ∨ split.path.head? = some '/') then '/' :: '/' :: split.path
    else split.path
  (if split.scheme = [] then [] else split.scheme ++ [':']) ++ url ++ joinPart '?' split.query ++
    joinPart '#' split.fragment

def urlunparse (parts : ParseResult) : Str :=
  urlunsplit ⟨parts.scheme, parts.netloc, parts.path ++ joinPart ';' parts.params, parts.query,
    parts.fragment⟩

variable {U}

theorem joinPart_tail (delimiter : Char) (part : Str) : (joinPart delimiter part).tail = part := by
  unfold joinPart
  split
  · rename_i empty
    rw [empty]
    rfl
  · rfl

theorem joinPart_head {delimiter c : Char} {part : Str}
    (head : (joinPart delimiter part).head? = some c) : c = delimiter := by
  unfold joinPart at head
  split at head
  · cases head
  · simpa using head.symm

theorem mem_joinPart {delimiter c : Char} {part : Str} (member : c ∈ joinPart delimiter part) :
    c = delimiter ∨ c ∈ part := by
  unfold joinPart at member
  split at member
  · cases member
  · simpa using member

/-- Splitting the parameters off is stable: what is put together again splits the same
way. -/
theorem splitParams_join (url : Str) :
    splitParams ((splitParams url).1 ++ joinPart ';' (splitParams url).2) = splitParams url := by
  have segmented : ∀ directory segment params : Str,
      (∀ c, directory.getLast? = some c → (c == '/') = true) →
      (∀ c ∈ segment ++ params, (c == '/') = false) → (∀ c ∈ segment, (c == ';') = false) →
      (∀ c, params.head? = some c → (c == ';') = true) →
      splitParams (directory ++ (segment ++ params)) = (directory ++ segment, params.tail) := by
    intro directory segment params slash last semicolon marked
    rw [splitParams, Py.rcut_append slash last]
    simp only
    rw [Py.cut_append semicolon marked]
  have slash := fun c => @Py.rcut_before (· == '/') url c
  have last := @Py.rcut_after (· == '/') url
  simp only [splitParams]
  generalize (rcut (· == '/') url).1 = directory at slash
  generalize (rcut (· == '/') url).2 = final at last
  have whole := Py.cut_fst_append_snd (· == ';') final
  have semicolon := @Py.cut_before (· == ';') final
  generalize (cut (· == ';') final).1 = segment at whole semicolon
  generalize (cut (· == ';') final).2 = params at whole
  have inside : ∀ c ∈ segment ++ joinPart ';' params.tail, (c == '/') = false := by
    intro c member
    rcases List.mem_append.mp member with early | late
    · exact last c (by rw [← whole]; exact List.mem_append_left _ early)
    · rcases mem_joinPart late with rfl | tail
      · decide
      · exact last c (by rw [← whole]; exact List.mem_append_right _ (List.mem_of_mem_tail tail))
  have again := segmented directory segment (joinPart ';' params.tail) slash inside semicolon
    (fun c head => by rw [joinPart_head head]; decide)
  rw [joinPart_tail] at again
  rw [List.append_assoc]
  exact again

/-- A lower-case scheme. -/
def IsScheme (scheme : Str) : Prop :=
  (∃ c, scheme.head? = some c ∧ c.isAlpha = true) ∧
    ∀ c ∈ scheme, isSchemeChar c = true ∧ c.isUpper = false

/-- The parts after the authority, as parsing leaves them. -/
structure Tail (scheme path params query : Str) : Prop where
  path_plain : ∀ c ∈ path, c ≠ '?' ∧ c ≠ '#'
  params_plain : ∀ c ∈ params, c ≠ '?' ∧ c ≠ '#'
  query_plain : ∀ c ∈ query, c ≠ '#'
  params : (scheme ∈ usesParams → splitParams (path ++ joinPart ';' params) = (path, params)) ∧
    (scheme ∉ usesParams → params = [])

theorem schemeChar_ascii {c : Char} (scheme : isSchemeChar c = true) : Py.isAscii c = true := by
  simp only [isSchemeChar, Bool.or_eq_true, beq_iff_eq] at scheme
  rcases scheme with ((letter | rfl) | rfl) | rfl
  · exact Py.alphanum_ascii letter
  all_goals decide

theorem schemeChar_plain {c : Char} (scheme : isSchemeChar c = true) :
    (c == ':') = false ∧ isUnsafe c = false ∧ isControlOrSpace c = false :=
  Py.ascii_forall (P := fun c => isSchemeChar c = true →
    (c == ':') = false ∧ isUnsafe c = false ∧ isControlOrSpace c = false) (by decide)
    (schemeChar_ascii scheme) scheme

theorem IsScheme.lower_eq {scheme : Str} (valid : IsScheme scheme) : Py.lower U scheme = scheme :=
  Py.lower_eq_self fun c member =>
    Py.settled_ascii (schemeChar_ascii (valid.2 c member).1) (valid.2 c member).2

theorem splitScheme_append {scheme : Str} (valid : IsScheme scheme) (rest : Str) :
    splitScheme U (scheme ++ ':' :: rest) = (scheme, rest) := by
  have cuts : cut (· == ':') (scheme ++ ':' :: rest) = (scheme, ':' :: rest) := by
    refine Py.cut_append (fun c member => (schemeChar_plain (valid.2 c member).1).1) ?_
    intro c head
    simp only [List.head?_cons, Option.some.injEq] at head
    rw [← head]
    decide
  obtain ⟨c, head, alpha⟩ := valid.1
  have chars : scheme.all isSchemeChar = true :=
    List.all_eq_true.mpr fun c member => (valid.2 c member).1
  rw [splitScheme, cuts]
  simp [head, alpha, chars, valid.lower_eq]

/-- A URL written out from its parts, without a fragment. -/
def urlText (scheme netloc path params query : Str) : Str :=
  scheme ++ ':' :: '/' :: '/' :: (netloc ++ ((path ++ joinPart ';' params) ++ joinPart '?' query))

theorem urlunparse_eq_text {scheme netloc path params query : Str} (schemed : scheme ≠ [])
    (hosted : netloc ≠ [] ∨ scheme ∈ usesNetloc) (slash : path.head? = some '/') :
    urlunparse ⟨scheme, netloc, path, params, query, []⟩ =
      urlText scheme netloc path params query := by
  have url_head : (path ++ joinPart ';' params).head? = some '/' := by
    cases path with
    | nil => cases slash
    | cons c path => simpa using slash
  rw [urlunparse, urlunsplit, urlText]
  by_cases empty : netloc = []
  · have uses := hosted.resolve_left (fun full => full empty)
    by_cases doubled : ['/', '/'].isPrefixOf (path ++ joinPart ';' params) = true
    · simp only [empty, ne_eq, not_true_eq_false, if_false, doubled, if_true, schemed]
      simp [joinPart]
    · simp only [empty, ne_eq, not_true_eq_false, if_false, doubled, schemed, uses, url_head,
        not_false_eq_true, or_true, and_self, if_true]
      simp [joinPart]
  · simp only [empty, ne_eq, not_false_eq_true, if_true, schemed, if_false, url_head,
      not_true_eq_false, and_false]
    simp [joinPart]

/-- The text that is split after control characters and line breaks are removed. -/
def cleaned (url : Str) : Str := (Py.lstrip isControlOrSpace url).filter fun c => !isUnsafe c

/-- Cleaning leaves a scheme as it is. -/
theorem cleaned_scheme {scheme : Str} (valid : IsScheme scheme) (rest : Str) :
    cleaned (scheme ++ ':' :: rest) = scheme ++ ':' :: rest.filter fun c => !isUnsafe c := by
  have lstripped : Py.lstrip isControlOrSpace (scheme ++ ':' :: rest) = scheme ++ ':' :: rest := by
    apply Py.lstrip_eq_self
    intro c first
    obtain ⟨d, head, _⟩ := valid.1
    rw [List.head?_append, head, Option.some_or, Option.some.injEq] at first
    rw [← first]
    exact (schemeChar_plain (valid.2 d (List.mem_of_head? head)).1).2.2
  have plain : scheme.filter (fun c => !isUnsafe c) = scheme := by
    rw [List.filter_eq_self]
    intro c member
    rw [(schemeChar_plain (valid.2 c member).1).2.1]
    rfl
  rw [cleaned, lstripped, List.filter_append, plain]
  rfl

/-- Nothing is removed from a URL without line breaks and tabs. -/
theorem cleaned_authority {scheme text : Str} (valid : IsScheme scheme)
    (safe : ∀ c ∈ text, isUnsafe c = false) :
    cleaned (scheme ++ ':' :: '/' :: '/' :: text) = scheme ++ ':' :: '/' :: '/' :: text := by
  have kept : text.filter (fun c => !isUnsafe c) = text := by
    rw [List.filter_eq_self]
    intro c member
    rw [safe c member]
    rfl
  rw [cleaned_scheme valid]
  show scheme ++ ':' :: '/' :: '/' :: text.filter (fun c => !isUnsafe c) = _
  rw [kept]

/-- Reading back what `urlText` wrote, up to the check of the authority. -/
theorem urlsplit_urlText {scheme netloc path params query : Str} (valid : IsScheme scheme)
    (netloc_plain : ∀ c ∈ netloc, isNetlocEnd c = false) (slash : path.head? = some '/')
    (tail : Tail scheme path params query)
    (safe : ∀ c ∈ netloc ++ path ++ params ++ query, isUnsafe c = false) :
    urlsplit U (urlText scheme netloc path params query) =
      if netlocOk U netloc then some ⟨scheme, netloc, path ++ joinPart ';' params, query, []⟩
      else none := by
  have url_head : (path ++ joinPart ';' params).head? = some '/' := by
    cases path with
    | nil => cases slash
    | cons d path => simpa using slash
  have clean : cleaned (urlText scheme netloc path params query) =
      urlText scheme netloc path params query := by
    apply cleaned_authority valid
    intro d member
    simp only [List.mem_append] at member
    rcases member with here | (here | here) | here
    · exact safe d (by simp [here])
    · exact safe d (by simp [here])
    · rcases mem_joinPart here with rfl | here
      · decide
      · exact safe d (by simp [here])
    · rcases mem_joinPart here with rfl | here
      · decide
      · exact safe d (by simp [here])
  unfold cleaned at clean
  have authority : splitNetloc ('/' :: '/' :: (netloc ++ ((path ++ joinPart ';' params) ++
      joinPart '?' query))) = (netloc, (path ++ joinPart ';' params) ++ joinPart '?' query) := by
    refine Py.cut_append netloc_plain ?_
    intro d first
    rw [List.head?_append, url_head] at first
    simp only [Option.some_or, Option.some.injEq] at first
    rw [← first]
    decide
  have fragmentless : cut (· == '#') ((path ++ joinPart ';' params) ++ joinPart '?' query) =
      ((path ++ joinPart ';' params) ++ joinPart '?' query, []) := by
    have plain : ∀ d ∈ (path ++ joinPart ';' params) ++ joinPart '?' query, (d == '#') = false := by
      intro d member
      rw [beq_eq_false_iff_ne]
      simp only [List.mem_append] at member
      rcases member with (here | here) | here
      · exact (tail.path_plain d here).2
      · rcases mem_joinPart here with rfl | here
        · decide
        · exact (tail.params_plain d here).2
      · rcases mem_joinPart here with rfl | here
        · decide
        · exact tail.query_plain d here
    simpa using Py.cut_append plain (t := []) nofun
  have queried : cut (· == '?') ((path ++ joinPart ';' params) ++ joinPart '?' query) =
      (path ++ joinPart ';' params, joinPart '?' query) := by
    refine Py.cut_append ?_ (fun d first => by rw [joinPart_head first]; decide)
    intro d member
    rw [beq_eq_false_iff_ne]
    rcases List.mem_append.mp member with here | here
    · exact (tail.path_plain d here).1
    · rcases mem_joinPart here with rfl | here
      · decide
      · exact (tail.params_plain d here).1
  rw [urlsplit, clean, urlText, splitScheme_append valid]
  simp only [authority, fragmentless, queried, joinPart_tail, List.tail_nil]

/-- Reading back a URL that was written from parts as parsing leaves them. -/
theorem urlparse_urlText {scheme netloc path params query : Str} (valid : IsScheme scheme)
    (netloc_plain : ∀ c ∈ netloc, isNetlocEnd c = false) (slash : path.head? = some '/')
    (tail : Tail scheme path params query)
    (safe : ∀ c ∈ netloc ++ path ++ params ++ query, isUnsafe c = false) :
    urlparse U (urlText scheme netloc path params query) =
      if netlocOk U netloc then some ⟨scheme, netloc, path, params, query, []⟩ else none := by
  rw [urlparse, urlsplit_urlText valid netloc_plain slash tail safe]
  by_cases ok : netlocOk U netloc = true
  · by_cases uses : scheme ∈ usesParams
    · have again := tail.params.1 uses
      by_cases marked : ';' ∈ path ++ joinPart ';' params
      · simp [ok, uses, marked, again]
      · have empty : params = [] := by
          by_contra full
          exact marked (by simp [joinPart, full])
        have plain : ';' ∉ path := fun here => marked (List.mem_append_left _ here)
        simp [ok, uses, empty, joinPart, plain]
    · have empty := tail.params.2 uses
      simp [ok, uses, empty, joinPart]
  · simp [ok]

theorem toLower_scheme {c : Char} (scheme : isSchemeChar c = true) :
    isSchemeChar c.toLower = true ∧ c.toLower.isUpper = false ∧
      (c.isAlpha = true → c.toLower.isAlpha = true) :=
  Py.ascii_forall (P := fun c => isSchemeChar c = true → isSchemeChar c.toLower = true ∧
    c.toLower.isUpper = false ∧ (c.isAlpha = true → c.toLower.isAlpha = true)) (by decide)
    (schemeChar_ascii scheme) scheme

theorem splitScheme_cases (url : Str) : splitScheme U url = ([], url) ∨
    ∃ raw rest, url = raw ++ ':' :: rest ∧ splitScheme U url = (Py.lower U raw, rest) ∧
      IsScheme (Py.lower U raw) := by
  unfold splitScheme
  split
  · rename_i raw colon rest cuts
    split
    · rename_i valid
      refine Or.inr ⟨raw, rest, ?_, rfl, ?_⟩
      · have whole := Py.cut_fst_append_snd (· == ':') url
        have stop := @Py.cut_after (· == ':') url colon (by rw [cuts]; rfl)
        rw [cuts] at whole
        rw [beq_iff_eq] at stop
        rw [← whole, stop]
      · simp only [Bool.and_eq_true, List.all_eq_true] at valid
        obtain ⟨alpha, chars⟩ := valid
        rw [Py.lower_ascii_eq fun c member => schemeChar_ascii (chars c member)]
        refine ⟨?_, ?_⟩
        · cases raw with
          | nil => cases alpha
          | cons c raw =>
              have first : c.isAlpha = true := by simpa using alpha
              exact ⟨c.toLower, rfl, (toLower_scheme (chars c (by simp))).2.2 first⟩
        · intro c member
          obtain ⟨d, inside, rfl⟩ := List.mem_map.mp member
          have facts := toLower_scheme (chars d inside)
          exact ⟨facts.1, facts.2.1⟩
    · exact Or.inl rfl
  · exact Or.inl rfl

theorem splitNetloc_cases (url : Str) : (splitNetloc url = ([], url)) ∨
    ∃ rest, url = '/' :: '/' :: rest ∧ splitNetloc url = cut isNetlocEnd rest := by
  unfold splitNetloc
  split
  · rename_i rest
    exact Or.inr ⟨rest, rfl, rfl⟩
  · exact Or.inl rfl

theorem splitParams_plain {url : Str} (plain : ';' ∉ url) : splitParams url = (url, []) := by
  have whole := Py.rcut_fst_append_snd (· == '/') url
  have last : ∀ c ∈ (rcut (· == '/') url).2, (c == ';') = false := by
    intro c member
    rw [beq_eq_false_iff_ne]
    rintro rfl
    exact plain (by rw [← whole]; exact List.mem_append_right _ member)
  have cuts := Py.cut_append last (t := []) nofun
  rw [List.append_nil] at cuts
  rw [splitParams]
  simp only [cuts, whole, List.tail_nil]

/-- A text is put together from its two cut parts, so both are lighter. -/
theorem total_cut (w : Char → Nat) (stop : Char → Bool) (s : Str) :
    total w (cut stop s).1 + total w (cut stop s).2.tail ≤ total w s := by
  have whole := congrArg (total w) (Py.cut_fst_append_snd stop s)
  rw [Py.total_append] at whole
  have tail := Py.total_sublist w (List.tail_sublist (cut stop s).2)
  omega

theorem splitParams_initial (url : Str) : (splitParams url).1 <+: url := by
  have whole := Py.rcut_fst_append_snd (· == '/') url
  have cuts := Py.cut_fst_append_snd (· == ';') (rcut (· == '/') url).2
  refine ⟨(cut (· == ';') (rcut (· == '/') url).2).2, ?_⟩
  simp only [splitParams]
  rw [List.append_assoc, cuts, whole]

theorem splitParams_total (w : Char → Nat) (url : Str) :
    total w (splitParams url).1 + total w (splitParams url).2 ≤ total w url := by
  have whole := congrArg (total w) (Py.rcut_fst_append_snd (· == '/') url)
  have cuts := total_cut w (· == ';') (rcut (· == '/') url).2
  simp only [splitParams]
  rw [Py.total_append] at whole ⊢
  omega

/-- The parameters never take the whole of a path that starts with a slash. -/
theorem splitParams_head {url : Str} (slash : url.head? = some '/') :
    (splitParams url).1.head? = some '/' := by
  have whole := Py.rcut_fst_append_snd (· == '/') url
  have nonempty : (rcut (· == '/') url).1 ≠ [] := by
    intro empty
    rw [empty, List.nil_append] at whole
    have plain := @Py.rcut_after (· == '/') url '/'
      (by rw [whole]; exact List.mem_of_head? slash)
    cases plain
  obtain ⟨c, directory, same⟩ := List.exists_cons_of_ne_nil nonempty
  simp only [splitParams, same]
  rw [same] at whole
  rw [← whole] at slash
  simpa using slash

theorem splitParams_params_mem {url : Str} {c : Char} (member : c ∈ (splitParams url).2) :
    c ∈ url := by
  have whole := Py.rcut_fst_append_snd (· == '/') url
  have cuts := Py.cut_fst_append_snd (· == ';') (rcut (· == '/') url).2
  rw [← whole, ← cuts]
  exact List.mem_append_right _ (List.mem_append_right _ (List.mem_of_mem_tail member))

/-- What parsing a URL with an authority yields. -/
structure ParseResult.Parsed (U : Unicode) (parts : ParseResult) : Prop where
  scheme : IsScheme parts.scheme
  netloc_plain : ∀ c ∈ parts.netloc, isNetlocEnd c = false
  netloc_ok : netlocOk U parts.netloc = true
  path : parts.path = [] ∧ parts.params = [] ∨ parts.path.head? = some '/'
  tail : Tail parts.scheme parts.path parts.params parts.query
  safe : ∀ c ∈ parts.netloc ++ parts.path ++ parts.params ++ parts.query, isUnsafe c = false

theorem cleaned_safe (url : Str) : ∀ c ∈ cleaned url, isUnsafe c = false := by
  intro c member
  simpa using (List.mem_filter.mp member).2

theorem cleaned_total (w : Char → Nat) (url : Str) : total w (cleaned url) ≤ total w url :=
  Py.total_sublist w (List.filter_sublist.trans (Py.lstrip_sublist _ url))

/-- The parts of a URL, each as a piece of the cleaned text. -/
theorem urlsplit_pieces {url : Str} {parts : SplitResult} (split : urlsplit U url = some parts)
    (schemed : parts.scheme ≠ []) (hosted : parts.netloc ≠ []) :
    netlocOk U parts.netloc = true ∧
      ∃ raw rest query fragment, cleaned url = raw ++ ':' :: '/' :: '/' :: (parts.netloc ++ rest) ∧
        parts.scheme = Py.lower U raw ∧ IsScheme parts.scheme ∧
        (∀ c ∈ parts.netloc, isNetlocEnd c = false) ∧
        (∀ c, rest.head? = some c → isNetlocEnd c = true) ∧
        rest = (parts.path ++ query) ++ fragment ∧ parts.query = query.tail ∧
        (∀ c ∈ parts.path ++ query, (c == '#') = false) ∧ ∀ c ∈ parts.path, (c == '?') = false := by
  unfold urlsplit at split
  rw [show (Py.lstrip isControlOrSpace url).filter (fun c => !isUnsafe c) = cleaned url from rfl]
    at split
  simp only at split
  split at split
  · rename_i ok
    rw [Option.some.injEq] at split
    subst split
    simp only at schemed hosted ok ⊢
    rcases splitScheme_cases (U := U) (cleaned url) with none | ⟨raw, rest, whole, scheme, valid⟩
    · rw [none] at schemed
      exact absurd rfl schemed
    rw [scheme] at schemed hosted ok ⊢
    simp only at schemed hosted ok ⊢
    rcases splitNetloc_cases rest with none | ⟨authority, marked, netloc⟩
    · rw [none] at hosted
      exact absurd rfl hosted
    rw [netloc] at hosted ok ⊢
    have pieces := Py.cut_fst_append_snd isNetlocEnd authority
    have hash := Py.cut_fst_append_snd (· == '#') (cut isNetlocEnd authority).2
    have mark := Py.cut_fst_append_snd (· == '?') (cut (· == '#') (cut isNetlocEnd authority).2).1
    refine ⟨ok, raw, (cut isNetlocEnd authority).2, _,
      (cut (· == '#') (cut isNetlocEnd authority).2).2, ?_, rfl, valid, Py.cut_before,
      fun c head => Py.cut_after head, ?_, rfl, ?_, Py.cut_before⟩
    · rw [whole, marked, pieces]
    · rw [mark, hash]
    · rw [mark]
      exact Py.cut_before
  · cases split

/-- How parameters come off the path of a split URL. -/
theorem params_cases (scheme path : Str) :
    ∃ params rest, (if scheme ∈ usesParams ∧ ';' ∈ path then splitParams path else (path, [])) =
        (rest, params) ∧ rest <+: path ∧ (∀ c ∈ params, c ∈ path) ∧
      (∀ w, total w rest + total w params ≤ total w path) ∧
      (path.head? = some '/' → rest.head? = some '/') ∧ (path = [] → params = []) ∧
      (scheme ∈ usesParams → splitParams (rest ++ joinPart ';' params) = (rest, params)) ∧
      (scheme ∉ usesParams → params = []) := by
  by_cases uses : scheme ∈ usesParams ∧ ';' ∈ path
  · refine ⟨(splitParams path).2, (splitParams path).1, by rw [if_pos uses],
      splitParams_initial path, fun c member => splitParams_params_mem member,
      fun w => splitParams_total w path, splitParams_head, ?_, fun _ => splitParams_join path,
      fun other => absurd uses.1 other⟩
    rintro rfl
    exact absurd uses.2 (by simp)
  · refine ⟨[], path, by rw [if_neg uses], List.prefix_refl path, nofun, fun w => by simp, id,
      fun _ => rfl, ?_, fun _ => rfl⟩
    intro known
    rw [joinPart, if_pos rfl, List.append_nil]
    exact splitParams_plain fun marked => uses ⟨known, marked⟩

theorem urlparse_parsed {url : Str} {parts : ParseResult} (parse : urlparse U url = some parts)
    (schemed : parts.scheme ≠ []) (hosted : parts.netloc ≠ []) : parts.Parsed U := by
  simp only [urlparse, Option.bind_eq_bind, Option.bind_eq_some_iff] at parse
  obtain ⟨split, pieces, same⟩ := parse
  obtain ⟨params, rest, taken, front, inside, _, slash, empty, again, none⟩ :=
    params_cases split.scheme split.path
  rw [taken] at same
  simp only [Option.pure_def, Option.some.injEq] at same
  subst same
  obtain ⟨ok, raw, tail, query, fragment, whole, _, valid, netloc_plain, tail_head, parted, queried,
    hash, mark⟩ := urlsplit_pieces pieces schemed hosted
  have path_inside : ∀ c ∈ rest, c ∈ split.path := fun c member => front.subset member
  have path_hash : ∀ c ∈ split.path, c ≠ '?' ∧ c ≠ '#' := by
    intro c member
    refine ⟨by simpa using mark c member, ?_⟩
    simpa using hash c (List.mem_append_left _ member)
  have query_inside : ∀ c ∈ split.query, c ∈ query := by
    intro c member
    rw [queried] at member
    exact List.mem_of_mem_tail member
  have clean : ∀ c ∈ split.netloc ++ (split.path ++ query), isUnsafe c = false := by
    intro c member
    refine cleaned_safe url c ?_
    rw [whole, parted]
    simp only [List.mem_append, List.mem_cons] at member ⊢
    rcases member with here | here | here <;> simp [here]
  refine ⟨valid, netloc_plain, ok, ?_, ⟨?_, ?_, ?_, again, none⟩, ?_⟩
  · cases full : split.path with
    | nil =>
        refine Or.inl ⟨?_, empty full⟩
        rw [full] at front
        exact List.prefix_nil.mp front
    | cons c path =>
        refine Or.inr (slash ?_)
        have ends := tail_head c (by rw [parted, full]; rfl)
        have plain := path_hash c (by rw [full]; exact List.mem_cons_self)
        rw [full]
        simp only [isNetlocEnd, Bool.or_eq_true, beq_iff_eq, plain.1, plain.2, or_false] at ends
        rw [ends]
        rfl
  · exact fun c member => path_hash c (path_inside c member)
  · exact fun c member => path_hash c (inside c member)
  · intro c member
    simpa using hash c (List.mem_append_right _ (query_inside c member))
  · intro c member
    refine clean c ?_
    simp only [List.mem_append] at member ⊢
    rcases member with ((here | here) | here) | here
    · exact Or.inl here
    · exact Or.inr (Or.inl (path_inside c here))
    · exact Or.inr (Or.inl (inside c here))
    · exact Or.inr (Or.inr (query_inside c here))

/-- Parsing brings in no weight. -/
theorem urlparse_total {w : Char → Nat} (lowers : U.Lowers w) {url : Str} {parts : ParseResult}
    (parse : urlparse U url = some parts) (schemed : parts.scheme ≠ []) (hosted : parts.netloc ≠ []) :
    total w parts.scheme + total w parts.netloc + total w parts.path + total w parts.params +
      total w parts.query ≤ total w url := by
  simp only [urlparse, Option.bind_eq_bind, Option.bind_eq_some_iff] at parse
  obtain ⟨split, pieces, same⟩ := parse
  obtain ⟨params, rest, taken, _, _, lighter, _⟩ := params_cases split.scheme split.path
  rw [taken] at same
  simp only [Option.pure_def, Option.some.injEq] at same
  subst same
  obtain ⟨_, raw, tail, query, fragment, whole, lowered, _, _, _, parted, queried, _⟩ :=
    urlsplit_pieces pieces schemed hosted
  have text := congrArg (total w) whole
  rw [parted] at text
  simp only [Py.total_append, Py.total_cons] at text
  have clean := cleaned_total w url
  have scheme := Py.total_lower lowers raw
  have path := lighter w
  have tail := Py.total_sublist w (List.tail_sublist query)
  simp only [lowered, queried] at *
  omega

end Urllib
