import Cti.KeyedTable
import Cti.Normalize
import Cti.PyPath

set_option autoImplicit false

/- The archives of raw payloads. -/
namespace Cti

open Py (Str)

/-- The digits of a number to base 16, the last `width` of them. -/
def hexText : Nat → Nat → Str
  | 0, _ => []
  | width + 1, n => hexText width (n / 16) ++ [Nat.digitChar (n % 16)]

/-- `str` of a UUID. -/
def uuidText (id : Uuid) : Str :=
  let hex := hexText 32 id
  hex.take 8 ++ '-' :: (hex.drop 8).take 4 ++ '-' :: (hex.drop 12).take 4 ++
    '-' :: (hex.drop 16).take 4 ++ '-' :: hex.drop 20

/-- Year, month and day of the days since 1970-01-01. Years are counted from March, in eras
of 400 years. -/
def civilDate (days : Int) : Int × Int × Int :=
  let shifted := days + 719468
  let era := shifted / 146097
  let day := shifted % 146097
  let year := (day - day / 1460 + day / 36524 - day / 146096) / 365
  let dayOfYear := day - (365 * year + year / 4 - year / 100)
  let month := (5 * dayOfYear + 2) / 153
  (if month < 10 then year + era * 400 else year + era * 400 + 1,
    if month < 10 then month + 3 else month - 9, dayOfYear - (153 * month + 2) / 5 + 1)

def padded (width : Nat) (n : Int) : Str := (decimalText n).leftpad width '0'

/-- `strftime("%Y%m%dT%H%M%SZ")` of an instant in UTC, in microseconds since the epoch. -/
def strftime (instant : Int) : Str :=
  let seconds := instant / 1000000
  let (year, month, day) := civilDate (seconds / 86400)
  let time := seconds % 86400
  padded 4 year ++ padded 2 month ++ padded 2 day ++ 'T' :: padded 2 (time / 3600) ++
    padded 2 (time / 60 % 60) ++ padded 2 (time % 60) ++ ['Z']

example : strftime 951827696999999 = "20000229T123456Z".toList := by decide

/-- `isoformat()` of an instant in UTC, in microseconds since the epoch. -/
def isoformat (instant : Int) : Str :=
  let seconds := instant / 1000000
  let microseconds := instant % 1000000
  let (year, month, day) := civilDate (seconds / 86400)
  let time := seconds % 86400
  padded 4 year ++ '-' :: padded 2 month ++ '-' :: padded 2 day ++ 'T' :: padded 2 (time / 3600) ++
    ':' :: padded 2 (time / 60 % 60) ++ ':' :: padded 2 (time % 60) ++
    (if microseconds = 0 then [] else '.' :: padded 6 microseconds) ++ "+00:00".toList

example : isoformat 951827696000000 = "2000-02-29T12:34:56+00:00".toList := by decide

/-- `payload.etag or payload.fetched_at.strftime(...)`. -/
def RawPayload.tag (payload : RawPayload) : Str :=
  match payload.etag with
  | none | some [] => strftime payload.fetchedAt
  | some (c :: etag) => c :: etag

def isQuote (c : Char) : Bool := c == '\x22'

/-- The tag as a file name: quotes are stripped and slashes replaced. -/
def RawPayload.fileTag (payload : RawPayload) : Str :=
  Py.replace ['/'] ['_'] (Py.rstrip isQuote (Py.lstrip isQuote payload.tag))

/-- The map behind an archive: a file system, by resolved paths, or the objects of a
bucket. -/
inductive Place where
  | file (location : Py.Location)
  | object (bucket key : Str)
deriving DecidableEq

abbrev Blobs := List (Place × List UInt8)

def Blobs.write (blobs : Blobs) (place : Place) (data : List UInt8) : Blobs :=
  KeyedTable.upsert Prod.fst (fun _ new => new) blobs (place, data)

def Blobs.read (blobs : Blobs) (place : Place) : Option (List UInt8) :=
  (KeyedTable.find Prod.fst place blobs).map Prod.snd

/-- The `gzip` module. -/
structure Gzip where
  compress : List UInt8 → List UInt8
  decompress : List UInt8 → Option (List UInt8)
  roundTrip : ∀ data, decompress (compress data) = some data

/-- `uri.removeprefix(scheme)`. -/
def withoutScheme (scheme uri : Str) : Str :=
  if scheme.isPrefixOf uri then uri.drop scheme.length else uri

theorem withoutScheme_append (scheme rest : Str) : withoutScheme scheme (scheme ++ rest) = rest := by
  simp [withoutScheme]

/-- `cwd` is the directory that the process runs in. -/
structure FilesystemArchive where
  root : Str
  cwd : Py.Location

namespace FilesystemArchive

variable (archive : FilesystemArchive) (gzip : Gzip) (blobs : Blobs)

/-- `_key`. -/
def key (ctx : RunContext) (payload : RawPayload) : Str :=
  ctx.sourceId ++ '/' :: uuidText ctx.runId ++ '/' :: payload.fileTag ++ ".bin.gz".toList

def target (ctx : RunContext) (payload : RawPayload) : Py.Location :=
  Py.resolvePath archive.cwd (Py.joinPath archive.root (key ctx payload))

def put (ctx : RunContext) (payload : RawPayload) : Blobs × Str :=
  (blobs.write (.file (archive.target ctx payload)) (gzip.compress payload.body),
    "file://".toList ++ Py.pathText (archive.target ctx payload))

def get (uri : Str) : Option (List UInt8) :=
  (blobs.read (.file (Py.resolvePath archive.cwd (withoutScheme "file://".toList uri)))).bind
    gzip.decompress

end FilesystemArchive

/-- The name of a bucket has no slash in it. -/
structure S3Archive where
  bucket : Str
  slashless : '/' ∉ bucket
  keyPrefix : Str

namespace S3Archive

variable (archive : S3Archive) (gzip : Gzip) (blobs : Blobs)

def key (ctx : RunContext) (payload : RawPayload) : Str :=
  archive.keyPrefix ++ '/' :: ctx.sourceId ++ '/' :: uuidText ctx.runId ++ '/' :: payload.tag ++
    ".bin.gz".toList

def put (ctx : RunContext) (payload : RawPayload) : Blobs × Str :=
  (blobs.write (.object archive.bucket (archive.key ctx payload)) (gzip.compress payload.body),
    "s3://".toList ++ archive.bucket ++ '/' :: archive.key ctx payload)

/-- The bucket comes from the URI, not from the archive. -/
def get (_ : S3Archive) (uri : Str) : Option (List UInt8) :=
  let rest := Py.cut (· == '/') (withoutScheme "s3://".toList uri)
  (blobs.read (.object rest.1 (rest.2.drop 1))).bind gzip.decompress

end S3Archive

/-- The two backends. -/
inductive Archive where
  | filesystem (archive : FilesystemArchive)
  | s3 (archive : S3Archive)

namespace Archive

variable (gzip : Gzip)

def put (blobs : Blobs) (ctx : RunContext) (payload : RawPayload) : Archive → Blobs × Str
  | .filesystem archive => archive.put gzip blobs ctx payload
  | .s3 archive => archive.put gzip blobs ctx payload

def get (blobs : Blobs) (uri : Str) : Archive → Option (List UInt8)
  | .filesystem archive => archive.get gzip blobs uri
  | .s3 archive => archive.get gzip blobs uri

/-- Where a payload is put. -/
def place (put : RunContext × RawPayload) : Archive → Place
  | .filesystem archive => .file (archive.target put.1 put.2)
  | .s3 archive => .object archive.bucket (archive.key put.1 put.2)

/-- A sequence of puts: the map after all of them, and their URIs. -/
def putAll (archive : Archive) :
    Blobs → List (RunContext × RawPayload) → Blobs × List Str
  | blobs, [] => (blobs, [])
  | blobs, (ctx, payload) :: rest =>
      let (blobs, uri) := archive.put gzip blobs ctx payload
      let (blobs, uris) := putAll archive blobs rest
      (blobs, uri :: uris)

variable (archive : Archive)

/-- The URI of a put. -/
def uriOf (put : RunContext × RawPayload) : Str := (archive.put gzip [] put.1 put.2).2

theorem put_eq (blobs : Blobs) (ctx : RunContext) (payload : RawPayload) :
    archive.put gzip blobs ctx payload =
      (blobs.write (archive.place (ctx, payload)) (gzip.compress payload.body),
        archive.uriOf gzip (ctx, payload)) := by
  cases archive <;> rfl

/-- A URI leads to the place it was made for. -/
theorem get_uriOf (blobs : Blobs) (put : RunContext × RawPayload) :
    archive.get gzip blobs (archive.uriOf gzip put) =
      (blobs.read (archive.place put)).bind gzip.decompress := by
  cases archive with
  | filesystem archive =>
      change archive.get gzip blobs ("file://".toList ++ Py.pathText (archive.target put.1 put.2)) = _
      unfold FilesystemArchive.get
      rw [withoutScheme_append, Py.resolvePath_pathText]
      rfl
  | s3 archive =>
      change archive.get gzip blobs
        ("s3://".toList ++ archive.bucket ++ '/' :: archive.key put.1 put.2) = _
      unfold S3Archive.get
      rw [List.append_assoc, withoutScheme_append, Py.cut_slash archive.slashless]
      rfl

/-- The row that a put writes. -/
def row (put : RunContext × RawPayload) : Place × List UInt8 :=
  (archive.place put, gzip.compress put.2.body)

theorem putAll_eq (blobs : Blobs) (puts : List (RunContext × RawPayload)) :
    archive.putAll gzip blobs puts =
      ((puts.map (archive.row gzip)).foldl (KeyedTable.upsert Prod.fst fun _ new => new) blobs,
        puts.map (archive.uriOf gzip)) := by
  induction puts generalizing blobs with
  | nil => rfl
  | cons put puts ih =>
      unfold putAll
      rw [put_eq]
      dsimp only
      rw [ih]
      rfl

/-- After the sequence, every URI of it gives back its payload. -/
def KeepsAll (blobs : Blobs) (puts : List (RunContext × RawPayload)) : Prop :=
  ∀ (i : Nat) put uri, puts[i]? = some put → (archive.putAll gzip blobs puts).2[i]? = some uri →
    archive.get gzip (archive.putAll gzip blobs puts).1 uri = some put.2.body

/-- What is read back is the body of some put to the same place. -/
theorem get_putAll (blobs : Blobs) {puts : List (RunContext × RawPayload)}
    {put : RunContext × RawPayload} (member : put ∈ puts) :
    ∃ last ∈ puts, archive.place last = archive.place put ∧
      archive.get gzip (archive.putAll gzip blobs puts).1 (archive.uriOf gzip put) =
        some last.2.body := by
  obtain ⟨row, among, same, found⟩ := @KeyedTable.find_foldl_overwrite _ _ _ Prod.fst
    (puts.map (archive.row gzip)) blobs _ (List.mem_map_of_mem member)
  obtain ⟨last, inside, rfl⟩ := List.mem_map.mp among
  refine ⟨last, inside, same, ?_⟩
  rw [get_uriOf, putAll_eq, Blobs.read]
  change (Option.map Prod.snd (KeyedTable.find Prod.fst (archive.row gzip put).1 _)).bind _ = _
  rw [found]
  exact gzip.roundTrip last.2.body

theorem putAll_issued (blobs : Blobs) {puts : List (RunContext × RawPayload)} {i : Nat}
    {put : RunContext × RawPayload} (taken : puts[i]? = some put) :
    (archive.putAll gzip blobs puts).2[i]? = some (archive.uriOf gzip put) := by
  rw [putAll_eq, List.getElem?_map, taken]
  rfl

/-- Of two payloads in one place, one is lost. -/
theorem KeepsAll.agree {gzip : Gzip} {archive : Archive} {blobs : Blobs}
    {puts : List (RunContext × RawPayload)} (keeps : archive.KeepsAll gzip blobs puts)
    {put other : RunContext × RawPayload} (member : put ∈ puts) (member' : other ∈ puts)
    (same : archive.place put = archive.place other) : put.2.body = other.2.body := by
  obtain ⟨i, here⟩ := List.mem_iff_getElem?.mp member
  obtain ⟨j, there⟩ := List.mem_iff_getElem?.mp member'
  have first := keeps i put _ here (archive.putAll_issued gzip blobs here)
  have second := keeps j other _ there (archive.putAll_issued gzip blobs there)
  rw [get_uriOf, same, ← get_uriOf, second] at first
  exact (Option.some.inj first).symm

/-- The archive overwrites: nothing is lost exactly if payloads that are put to the same place
have the same body. -/
theorem keepsAll_iff (blobs : Blobs) (puts : List (RunContext × RawPayload)) :
    archive.KeepsAll gzip blobs puts ↔
      ∀ put ∈ puts, ∀ other ∈ puts, archive.place put = archive.place other →
        put.2.body = other.2.body := by
  constructor
  · intro keeps put member other member' same
    exact keeps.agree member member' same
  · intro agree i put uri here given
    rw [archive.putAll_issued gzip blobs here] at given
    cases given
    obtain ⟨last, inside, same, read⟩ := archive.get_putAll gzip blobs (List.mem_of_getElem? here)
    rw [read, agree last inside put (List.mem_of_getElem? here) same]

/-- The part of the place that is left to the payload. -/
def tagOf (payload : RawPayload) : Archive → Str
  | .filesystem _ => payload.fileTag
  | .s3 _ => payload.tag

theorem hexText_slashless (width n : Nat) : '/' ∉ hexText width n := by
  induction width generalizing n with
  | zero => exact List.not_mem_nil
  | succ width ih =>
      have digit : ∀ d : Fin 16, Nat.digitChar d ≠ '/' := by decide
      unfold hexText
      rw [List.mem_append, List.mem_singleton]
      rintro (early | last)
      · exact ih _ early
      · exact digit ⟨n % 16, Nat.mod_lt n (by decide)⟩ last.symm

theorem uuidText_slashless (id : Uuid) : '/' ∉ uuidText id := by
  have hex := hexText_slashless 32 id
  have part : ∀ {s : Str}, s ⊆ hexText 32 id → '/' ∉ s := fun sub member => hex (sub member)
  have middle : ∀ i n, ((hexText 32 id).drop i).take n ⊆ hexText 32 id := fun i n =>
    List.Subset.trans (List.take_subset _ _) (List.drop_subset _ _)
  unfold uuidText
  simp only [List.mem_append, List.mem_cons]
  rintro ((((first | dash | second) | dash | third) | dash | fourth) | dash | fifth)
  · exact part (List.take_subset _ _) first
  · cases dash
  · exact part (middle 8 4) second
  · cases dash
  · exact part (middle 12 4) third
  · cases dash
  · exact part (middle 16 4) fourth
  · cases dash
  · exact part (List.drop_subset _ _) fifth

theorem uuidText_plain (id : Uuid) : Py.PlainName (uuidText id) := by
  have dash : '-' ∈ uuidText id := by simp [uuidText]
  refine ⟨List.ne_nil_of_mem dash, uuidText_slashless id, ?_, ?_⟩
  · rintro dot
    rw [dot] at dash
    revert dash
    decide
  · rintro dots
    rw [dots] at dash
    revert dash
    decide

theorem fileName_plain (payload : RawPayload) :
    Py.PlainName (payload.fileTag ++ ".bin.gz".toList) := by
  have letter : 'b' ∈ payload.fileTag ++ ".bin.gz".toList :=
    List.mem_append_right _ (by decide)
  have slashless : '/' ∉ payload.fileTag := by
    unfold RawPayload.fileTag
    rw [Py.replace_singleton, List.mem_map]
    rintro ⟨c, _, same⟩
    split at same
    · cases same
    · rename_i other
      exact other same.symm
  refine ⟨List.ne_nil_of_mem letter, ?_, ?_, ?_⟩
  · rw [List.mem_append]
    rintro (early | last)
    · exact slashless early
    · revert last
      decide
  · rintro dot
    rw [dot] at letter
    revert letter
    decide
  · rintro dots
    rw [dots] at letter
    revert letter
    decide

theorem target_names (archive : FilesystemArchive) {ctx : RunContext}
    (plain : Py.PlainName ctx.sourceId) (payload : RawPayload) :
    (archive.target ctx payload).1 = (Py.resolvePath archive.cwd archive.root).1 ++
      [ctx.sourceId, uuidText ctx.runId, payload.fileTag ++ ".bin.gz".toList] := by
  have names : FilesystemArchive.key ctx payload = ['/'].intercalate
      [ctx.sourceId, uuidText ctx.runId, payload.fileTag ++ ".bin.gz".toList] := by
    rw [Py.intercalate_cons_cons, Py.intercalate_cons_cons, Py.intercalate_singleton]
    simp only [FilesystemArchive.key, List.append_assoc, List.cons_append, List.nil_append]
  unfold FilesystemArchive.target
  rw [names, Py.resolvePath_joinPath]
  intro name member
  rcases List.mem_cons.mp member with first | member
  · rw [first]
    exact plain
  · rcases List.mem_cons.mp member with second | third
    · rw [second]
      exact uuidText_plain ctx.runId
    · rw [List.mem_singleton.mp third]
      exact fileName_plain payload

/-- For the ids that sources may have, the place says source, run and tag, and no more. -/
theorem place_eq_iff {ctx ctx' : RunContext} (plain : Py.PlainName ctx.sourceId)
    (plain' : Py.PlainName ctx'.sourceId) (payload payload' : RawPayload) :
    archive.place (ctx, payload) = archive.place (ctx', payload') ↔
      ctx.sourceId = ctx'.sourceId ∧ uuidText ctx.runId = uuidText ctx'.runId ∧
        archive.tagOf payload = archive.tagOf payload' := by
  cases archive with
  | filesystem archive =>
      simp only [place, tagOf, Place.file.injEq]
      rw [← Subtype.val_inj, target_names archive plain, target_names archive plain',
        List.append_cancel_left_eq]
      simp only [List.cons.injEq, List.append_cancel_right_eq, and_true]
  | s3 archive =>
      simp only [place, tagOf, Place.object.injEq, true_and, S3Archive.key, List.append_assoc,
        List.cons_append]
      rw [List.append_cancel_left_eq, List.cons.injEq, Py.append_slash_inj plain.slashless
        plain'.slashless, Py.append_slash_inj (uuidText_slashless _) (uuidText_slashless _),
        List.append_cancel_right_eq]
      simp only [true_and]

/-- All that the place takes from a payload is its tag. -/
theorem place_congr (ctx : RunContext) {payload payload' : RawPayload}
    (same : payload.tag = payload'.tag) :
    archive.place (ctx, payload) = archive.place (ctx, payload') := by
  cases archive with
  | filesystem archive =>
      simp only [place, FilesystemArchive.target, FilesystemArchive.key, RawPayload.fileTag, same]
  | s3 archive => simp only [place, S3Archive.key, same]

/-- A page of a feed that sends no etags. -/
def page (byte : UInt8) (instant : Int) : RunContext × RawPayload :=
  (⟨1, "feed".toList, [], none⟩, ⟨[byte], [], [], instant, none, none, none⟩)

/-- Two pages of one run, fetched within a second. -/
theorem pages_overwritten :
    (¬ ∃ gzip, (filesystem ⟨"/var/lib/cti/raw".toList, ⟨[], nofun⟩⟩).KeepsAll gzip []
      [page 1 0, page 2 999999]) ∧
      ¬ ∃ gzip, (s3 ⟨"cti-raw".toList, by decide, "raw".toList⟩).KeepsAll gzip []
        [page 1 0, page 2 999999] := by
  have tags : (page 1 0).2.tag = (page 2 999999).2.tag := by decide
  have lost : ∀ archive : Archive, ¬ ∃ gzip, archive.KeepsAll gzip [] [page 1 0, page 2 999999] := by
    rintro archive ⟨gzip, keeps⟩
    have bodies := keeps.agree List.mem_cons_self (List.mem_cons_of_mem _ List.mem_cons_self)
      (archive.place_congr (page 1 0).1 tags)
    cases bodies
  exact ⟨lost _, lost _⟩

end Archive

end Cti
