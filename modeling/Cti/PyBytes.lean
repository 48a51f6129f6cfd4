import Cti.Models

set_option autoImplicit false

/- Bytes as text, and text as lines. -/
namespace Py

/-- `text.encode("utf-8")`. -/
def utf8Encode (s : Str) : List UInt8 := s.flatMap String.utf8EncodeChar

/-- `body.decode("utf-8")`: `none` is a `UnicodeDecodeError`. -/
def utf8Decode (body : List UInt8) : Option Str := body.toByteArray.utf8Decode?.map Array.toList

theorem utf8Decode_utf8Encode (s : Str) : utf8Decode (utf8Encode s) = some s := by
  have back : (utf8Encode s).toByteArray.utf8Decode? = some s.toArray := List.utf8Decode?_utf8Encode
  rw [utf8Decode, back]
  rfl

/-- The characters at which `str.splitlines` ends a line. -/
def isLineBreak (c : Char) : Bool :=
  (0x0a ≤ c.toNat && c.toNat ≤ 0x0d) || (0x1c ≤ c.toNat && c.toNat ≤ 0x1e) || c.toNat == 0x85 ||
    c.toNat == 0x2028 || c.toNat == 0x2029

/-- The lines of a text, of which the first goes on from `line`. A carriage return and a line
feed are one break; the end of the text ends a line only if something is in it. -/
def linesFrom (line : Str) : Str → List Str
  | [] => if line = [] then [] else [line]
  | '\r' :: '\n' :: rest => line :: linesFrom [] rest
  | c :: rest => if isLineBreak c then line :: linesFrom [] rest else linesFrom (line ++ [c]) rest

/-- `str.splitlines()`. -/
def splitlines (s : Str) : List Str := linesFrom [] s

@[simp] theorem splitlines_nil : splitlines [] = [] := by rw [splitlines, linesFrom, if_pos rfl]

theorem linesFrom_cons {c : Char} (other : c ≠ '\r') (line rest : Str) :
    linesFrom line (c :: rest) =
      if isLineBreak c then line :: linesFrom [] rest else linesFrom (line ++ [c]) rest := by
  rw [linesFrom]
  rintro _ rfl _
  exact other rfl

theorem linesFrom_append {s : Str} (plain : ∀ c ∈ s, isLineBreak c = false) (line rest : Str) :
    linesFrom line (s ++ rest) = linesFrom (line ++ s) rest := by
  induction s generalizing line with
  | nil => rw [List.nil_append, List.append_nil]
  | cons c s ih =>
      have here := plain c List.mem_cons_self
      have other : c ≠ '\r' := by
        rintro rfl
        cases here
      rw [List.cons_append, linesFrom_cons other, here, if_neg Bool.false_ne_true,
        ih fun d member => plain d (List.mem_cons_of_mem c member), List.append_assoc,
        List.singleton_append]

/-- The first line of a text that has a break after it. -/
theorem splitlines_append {line : Str} {c : Char} (plain : ∀ d ∈ line, isLineBreak d = false)
    (ends : isLineBreak c = true) (other : c ≠ '\r') (rest : Str) :
    splitlines (line ++ c :: rest) = line :: splitlines rest := by
  rw [splitlines, linesFrom_append plain, List.nil_append, linesFrom_cons other, if_pos ends]
  rfl

theorem splitlines_line {line : Str} (plain : ∀ d ∈ line, isLineBreak d = false)
    (nonempty : line ≠ []) : splitlines line = [line] := by
  have whole := linesFrom_append plain [] []
  rw [List.append_nil, List.nil_append] at whole
  rw [splitlines, whole, linesFrom, if_neg nonempty]

/-- Lines go on to a line feed if none of them ends right before it. -/
theorem linesFrom_lineFeed {s : Str} (single : '\r' ∉ s) (line rest : Str)
    (nonempty : line ++ s ≠ [])
    (goesOn : ∀ c, s.getLast? = some c → isLineBreak c = false) :
    linesFrom line (s ++ '\n' :: rest) = linesFrom line s ++ splitlines rest := by
  induction s generalizing line with
  | nil =>
      rw [List.append_nil] at nonempty
      rw [List.nil_append, linesFrom_cons (by decide), if_pos (by decide), linesFrom,
        if_neg nonempty]
      rfl
  | cons c s ih =>
      rw [List.mem_cons, not_or] at single
      have other : c ≠ '\r' := fun same => single.1 same.symm
      rw [List.cons_append, linesFrom_cons other, linesFrom_cons other]
      by_cases more : s = []
      · have last := goesOn c (by rw [more]; rfl)
        rw [last, if_neg Bool.false_ne_true, if_neg Bool.false_ne_true]
        exact ih single.2 _ (by simp) (by simp [more])
      · have goesOn' : ∀ d, s.getLast? = some d → isLineBreak d = false := by
          intro d last
          exact goesOn d (by rw [List.getLast?_cons, last]; rfl)
        split
        · rw [ih single.2 [] more goesOn']
          rfl
        · exact ih single.2 _ (by simp) goesOn'

/-- The lines of texts that are joined by line feeds. -/
theorem splitlines_join {texts : List Str} (single : ∀ s ∈ texts, '\r' ∉ s)
    (nonempty : ∀ s ∈ texts, s ≠ [])
    (goesOn : ∀ s ∈ texts, ∀ c, s.getLast? = some c → isLineBreak c = false) :
    splitlines (['\n'].intercalate texts) = texts.flatMap splitlines := by
  induction texts with
  | nil => exact splitlines_nil
  | cons s texts ih =>
      cases texts with
      | nil => simp
      | cons t texts =>
          have rest := ih (fun u member => single u (List.mem_cons_of_mem s member))
            (fun u member => nonempty u (List.mem_cons_of_mem s member))
            (fun u member => goesOn u (List.mem_cons_of_mem s member))
          rw [List.intercalate_cons_cons, List.append_assoc, List.singleton_append, splitlines,
            linesFrom_lineFeed (single s List.mem_cons_self) [] _ (nonempty s List.mem_cons_self)
            (goesOn s List.mem_cons_self), rest, List.flatMap_cons]
          rfl

/-- Only line feeds end lines of the text. -/
def OnlyFeeds (s : Str) : Prop := ∀ c ∈ s, isLineBreak c = true → c = '\n'

theorem OnlyFeeds.plain {c : Char} {s : Str} (feeds : OnlyFeeds (c :: s)) (other : c ≠ '\n') :
    isLineBreak c = false := by
  rw [← Bool.not_eq_true]
  exact fun ends => other (feeds c List.mem_cons_self ends)

theorem OnlyFeeds.tail {c : Char} {s : Str} (feeds : OnlyFeeds (c :: s)) : OnlyFeeds s :=
  fun d member => feeds d (List.mem_cons_of_mem c member)

theorem OnlyFeeds.single {c : Char} {s : Str} (feeds : OnlyFeeds (c :: s)) : c ≠ '\r' := by
  rintro rfl
  exact absurd (feeds '\r' List.mem_cons_self rfl) (by decide)

end Py

namespace Cti

open Py (Str)

/-- How decoding fails: with a `UnicodeDecodeError` and its text, or in another way (an encoding
that Python does not know). -/
inductive DecodeError where
  | unicode (message : Str)
  | other (e : Exc)

/-- What the parsers take from Python's codecs, apart from what UTF-8 encodes: decoding by the name
of an encoding, strictly or with replacement characters, and the text of an error. -/
structure TextCodecs where
  decode : Str → List UInt8 → Except DecodeError Str
  replace : Str → List UInt8 → Except Exc Str
  utf8Error : List UInt8 → Str

/-- `body.decode(encoding)`. -/
def TextCodecs.bytesDecode (C : TextCodecs) (encoding : Str) (body : List UInt8) :
    Except DecodeError Str :=
  if encoding = "utf-8".toList then
    match Py.utf8Decode body with
    | some text => .ok text
    | none => .error (.unicode (C.utf8Error body))
  else C.decode encoding body

theorem TextCodecs.bytesDecode_utf8 (C : TextCodecs) (s : Str) :
    C.bytesDecode "utf-8".toList (Py.utf8Encode s) = .ok s := by
  rw [bytesDecode, if_pos rfl, Py.utf8Decode_utf8Encode]

/-- `body.decode(encoding, errors="replace")`. -/
def TextCodecs.bytesReplace (C : TextCodecs) (encoding : Str) (body : List UInt8) :
    Except Exc Str :=
  match if encoding = "utf-8".toList then Py.utf8Decode body else none with
  | some text => .ok text
  | none => C.replace encoding body

theorem TextCodecs.bytesReplace_utf8 (C : TextCodecs) (s : Str) :
    C.bytesReplace "utf-8".toList (Py.utf8Encode s) = .ok s := by
  rw [bytesReplace, if_pos rfl, Py.utf8Decode_utf8Encode]

/-- Codecs that know no other encoding. -/
def TextCodecs.utf8Only : TextCodecs where
  decode encoding _ := .error (.other ((ClassName.other "LookupError".toList).exc encoding))
  replace encoding _ := .error ((ClassName.other "LookupError".toList).exc encoding)
  utf8Error _ := "invalid start byte".toList

/-- A payload with nothing but its body. -/
def RawPayload.ofBody (body : List UInt8) : RawPayload := ⟨body, [], [], 0, none, none, none⟩

end Cti
