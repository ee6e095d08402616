import FrameworkBenchmarks.Common.Utf16

/-!
# Text operations

The text operations of a pipeline keep a single string as it is; from the second string on they write
to a memory stream, unit by unit. Strings are lists of UTF-16 units.
-/

namespace FrameworkBenchmarks.Zebra

open Common

/-- `StreamWrite`: what is appended to the stream. -/
def streamWrite (str : List UInt16) : List UInt8 :=
  str.flatMap fun char => if char < 128 then [char.toUInt8] else encodeUtf8 [char]

/-- What a pipeline has written so far. -/
inductive BindType where
  | none
  | text (text : List UInt16)
  | stream (stream : List UInt8)
  | bytes (bytes : List UInt8)

/-- The headers that are set on the way, and what is sent. -/
structure Response where
  contentType : Option String := .none
  contentLength : Option String := .none
  body : List UInt8 := []

/-- `State.Text`; text behind JSON bytes fails. -/
def State.text (response : Response) (bt : BindType) (text : List UInt16) :
    Option (Response × BindType) :=
  match bt with
  | .none => some ({ response with contentType := some "text/plain" }, .text text)
  | .text v => some (response, .stream (streamWrite v ++ streamWrite text))
  | .stream ms => some (response, .stream (ms ++ streamWrite text))
  | .bytes _ => .none

/-- `State.SetComplete` -/
def State.setComplete (response : Response) : BindType → Response
  | .none => response
  | .text v =>
    let bytes := encodeUtf8 v
    { response with contentLength := some (toString bytes.length), body := response.body ++ bytes }
  | .stream ms =>
    { response with contentLength := some (toString ms.length), body := response.body ++ ms }
  | .bytes bytes =>
    { response with contentLength := some (toString bytes.length), body := response.body ++ bytes }

/-- The text operations of a pipeline in their order. -/
def State.texts (response : Response) (bt : BindType) :
    List (List UInt16) → Option (Response × BindType)
  | [] => some (response, bt)
  | text :: texts =>
    (State.text response bt text).bind fun (response, bt) => State.texts response bt texts

/-- What a request is sent whose pipeline consists of text operations. -/
def textResponse (texts : List (List UInt16)) : Option Response :=
  (State.texts {} .none texts).map fun (response, bt) => State.setComplete response bt

section StreamWrite

/-- Every unit is encoded by itself. -/
theorem streamWrite_eq (str : List UInt16) :
    streamWrite str = (str.map fun c => [c]).flatMap encodeUtf8 := by
  rw [List.flatMap_map]
  apply List.flatMap_congr
  intro char _
  split
  · rename_i hascii
    rw [encodeUtf8, encodeUnit, if_pos hascii]
  · rfl

theorem streamWrite_append (str str' : List UInt16) :
    streamWrite (str ++ str') = streamWrite str ++ streamWrite str' :=
  List.flatMap_append

/-- Writing unit by unit is the encoding exactly if the text has no surrogate pair. -/
theorem streamWrite_eq_iff (str : List UInt16) :
    streamWrite str = encodeUtf8 str ↔ str.IsChain fun c d => ¬(IsHigh c ∧ IsLow d) := by
  have hflatten : (str.map fun c => [c]).flatten = str := by
    rw [← List.flatMap_def]
    exact List.flatMap_singleton' str
  rw [streamWrite_eq, ← unsplit_singletons, ← flatMap_encodeUtf8_eq_iff, hflatten]

end StreamWrite

section Texts

/-- A stream takes further strings. -/
theorem texts_stream (response : Response) (ms : List UInt8) (texts : List (List UInt16)) :
    State.texts response (.stream ms) texts =
      some (response, .stream (ms ++ streamWrite texts.flatten)) := by
  induction texts generalizing ms with
  | nil => simp [State.texts, streamWrite]
  | cons text texts ih =>
    rw [State.texts, State.text, Option.bind_some]
    dsimp only
    rw [ih, List.flatten_cons, streamWrite_append, List.append_assoc]

/-- What is sent, by the number of the strings. -/
theorem textResponse_cons (text : List UInt16) (texts : List (List UInt16)) :
    textResponse (text :: texts) = some (State.setComplete { contentType := some "text/plain" }
      (if texts = [] then .text text else .stream (streamWrite (text :: texts).flatten))) := by
  cases texts with
  | nil => rfl
  | cons text' texts =>
    rw [if_neg (List.cons_ne_nil _ _), List.flatten_cons, List.flatten_cons, streamWrite_append,
      streamWrite_append, ← List.append_assoc]
    have hrest := texts_stream { contentType := some "text/plain" }
      (streamWrite text ++ streamWrite text') texts
    exact congrArg (Option.map fun (response, bt) => State.setComplete response bt) hrest

end Texts

/-- The text operations of a pipeline send the encoding of the whole text exactly if there is only one
of them or the text has no surrogate pair. -/
theorem textResponse_eq_iff {texts : List (List UInt16)} (hne : texts ≠ []) :
    (textResponse texts).map Response.body = some (encodeUtf8 texts.flatten) ↔
      texts.length = 1 ∨ texts.flatten.IsChain fun c d => ¬(IsHigh c ∧ IsLow d) := by
  obtain ⟨text, texts, rfl⟩ := List.exists_cons_of_ne_nil hne
  rw [textResponse_cons, Option.map_some, Option.some.injEq, List.length_cons, Nat.add_eq_right,
    List.length_eq_zero_iff]
  split
  · rename_i hnil
    apply iff_of_true
    · rw [hnil, List.flatten_singleton]
      rfl
    · exact .inl hnil
  · rename_i hmore
    rw [← streamWrite_eq_iff, or_iff_right hmore]
    rfl

/-- Two words, with a letter outside ASCII. -/
theorem textResponse_words :
    (textResponse [[104, 233], [33]]).map Response.body = some [104, 195, 169, 33] := by
  have hbody := (@textResponse_eq_iff [[104, 233], [33]] (by decide)).mpr
    (.inr (by decide +kernel))
  rw [hbody]
  decide +kernel

/-- A character outside the basic plane, alone and behind another string. -/
theorem textResponse_split :
    (textResponse [[0xD83D, 0xDE00]]).map Response.body = some [0xF0, 0x9F, 0x98, 0x80] ∧
      (textResponse [[97], [0xD83D, 0xDE00]]).map Response.body =
        some [97, 0xEF, 0xBF, 0xBD, 0xEF, 0xBF, 0xBD] ∧
      (textResponse [[97], [0xD83D, 0xDE00]]).map Response.body ≠
        some (encodeUtf8 [97, 0xD83D, 0xDE00]) := by
  decide +kernel

end FrameworkBenchmarks.Zebra
