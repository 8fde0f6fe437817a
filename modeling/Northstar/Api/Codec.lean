import Mathlib.Data.List.Basic

/-!
# The newline-delimited JSON codec

`Codec` of `api/codec.rs` frames each message as its `serde_json` text and a newline, through
`tokio_util`'s `LinesCodec`. The codec is `Codec::default()`, so its `LinesCodec` has
`max_length = usize::MAX`: the search for a newline always runs to the end of the buffer, the
length limit is never reached, and the codec never discards. `LinesCodec::decode` is modelled
in that configuration, with the `next_index` it keeps between calls so that a resumed search
starts where the last one stopped.

`serde_json` and the UTF-8 check are given by `Json`: a rendering that `parse` inverts, with no
newline and no trailing carriage return (compact JSON has no whitespace outside strings and
escapes control characters inside them).

The main result, `decode_chunks`: for every list of messages and every way of cutting the bytes
of their encodings into chunks, appending the chunks to the read buffer one at a time and
decoding after each until `decode` returns `None` yields exactly the messages, in order, and
leaves the buffer empty.
-/

namespace Northstar

/-- `b'\n'` -/
def newline : UInt8 := 10

/-- `b'\r'` -/
def carriageReturn : UInt8 := 13

/-- What `Codec::decode` returns as `Err`: a `LinesCodecError` (invalid UTF-8, mapped to
`ErrorKind::Other`) or a `serde_json` error (`ErrorKind::InvalidData`). -/
inductive CodecError
  | lines
  | invalidData
deriving DecidableEq, Repr

/-- `serde_json::to_string` and, inverting it, `str::from_utf8` followed by `serde_json::from_str`. -/
structure Json (α : Type) where
  render : α → List UInt8
  parse : List UInt8 → Except CodecError α
  parse_render : ∀ m, parse (render m) = .ok m
  newline_not_mem : ∀ m, newline ∉ render m
  getLast?_ne : ∀ m, (render m).getLast? ≠ some carriageReturn

/-- `LinesCodec`'s state between calls: where the next search for a newline starts. -/
structure LinesCodec where
  nextIndex : Nat
deriving DecidableEq, Repr

/-- `without_carriage_return` -/
def withoutCarriageReturn (line : List UInt8) : List UInt8 :=
  if line.getLast? = some carriageReturn then line.dropLast else line

/-- `LinesCodec::decode` with `max_length = usize::MAX`, so that `read_to` is the buffer's
length. The codec, the buffer after `split_to`, and the line; `none` where the slice
`buf[next_index..read_to]` panics. -/
def LinesCodec.decode (codec : LinesCodec) (buf : List UInt8) :
    Option (LinesCodec × List UInt8 × Option (List UInt8)) :=
  let readTo := buf.length
  if codec.nextIndex ≤ readTo then
    match (buf.drop codec.nextIndex).findIdx? (· == newline) with
    | some offset =>
      let newlineIndex := offset + codec.nextIndex
      some (⟨0⟩, buf.drop (newlineIndex + 1), some (withoutCarriageReturn (buf.take newlineIndex)))
    | none => some (⟨readTo⟩, buf, none)
  else none

variable {α : Type} (json : Json α)

/-- `Codec::decode`: a line, parsed. -/
def Codec.decode (codec : LinesCodec) (buf : List UInt8) :
    Option (LinesCodec × List UInt8 × Except CodecError (Option α)) :=
  (codec.decode buf).map fun
    | (codec, buf, none) => (codec, buf, .ok none)
    | (codec, buf, some line) => (codec, buf, (json.parse line).map some)

/-- `Codec::encode`: the JSON text and a newline (`LinesCodec::encode`). -/
def Codec.encode (m : α) : List UInt8 := json.render m ++ [newline]

/-- `FramedRead` on a readable buffer: `decode` until it returns `None` or fails, collecting the
frames. `fuel` bounds the number of calls. -/
def drain : Nat → LinesCodec → List UInt8 → Option (LinesCodec × List UInt8 × Except CodecError (List α))
  | 0, _, _ => none
  | fuel + 1, codec, buf =>
    match Codec.decode json codec buf with
    | some (codec, buf, .ok (some m)) =>
      (drain fuel codec buf).map fun (codec, buf, r) => (codec, buf, r.map (m :: ·))
    | some (codec, buf, .ok none) => some (codec, buf, .ok [])
    | some (codec, buf, .error e) => some (codec, buf, .error e)
    | none => none

/-- The chunks arrive one at a time; after each is appended to the read buffer, the frames it
completes are decoded. A drain gets one call per byte of the buffer and one more. -/
def feed : List (List UInt8) → LinesCodec → List UInt8 →
    Option (LinesCodec × List UInt8 × Except CodecError (List α))
  | [], codec, buf => some (codec, buf, .ok [])
  | chunk :: chunks, codec, buf =>
    match drain json ((buf ++ chunk).length + 1) codec (buf ++ chunk) with
    | some (codec, buf, .ok ms) =>
      (feed chunks codec buf).map fun (codec, buf, r) => (codec, buf, r.map (ms ++ ·))
    | r => r

/-! ### One call of `decode` -/

/-- The bytes before `next_index` have been searched: they hold no newline. -/
def Scanned (codec : LinesCodec) (buf : List UInt8) : Prop :=
  codec.nextIndex ≤ buf.length ∧ newline ∉ buf.take codec.nextIndex

theorem LinesCodec.decode_partial {codec : LinesCodec} {buf : List UInt8}
    (hle : codec.nextIndex ≤ buf.length) (h : newline ∉ buf) :
    codec.decode buf = some (⟨buf.length⟩, buf, none) := by
  have hfind : (buf.drop codec.nextIndex).findIdx? (· == newline) = none :=
    List.findIdx?_eq_none_iff.2 fun x hx =>
      beq_eq_false_iff_ne.2 fun hxn => h (hxn ▸ List.mem_of_mem_drop hx)
  simp [decode, hle, hfind]

theorem LinesCodec.decode_line {codec : LinesCodec} {line rest : List UInt8}
    (hle : codec.nextIndex ≤ line.length) (hline : newline ∉ line) :
    codec.decode (line ++ newline :: rest) = some (⟨0⟩, rest, some (withoutCarriageReturn line)) := by
  have hfind : ((line ++ newline :: rest).drop codec.nextIndex).findIdx? (· == newline) =
      some (line.length - codec.nextIndex) := by
    have hnone : (line.drop codec.nextIndex).findIdx? (· == newline) = none :=
      List.findIdx?_eq_none_iff.2 fun x hx =>
        beq_eq_false_iff_ne.2 fun hxn => hline (hxn ▸ List.mem_of_mem_drop hx)
    rw [List.drop_append_of_le_length hle, List.findIdx?_append, hnone]
    simp
  have hlen : line.length - codec.nextIndex + codec.nextIndex = line.length := by omega
  simp only [decode, List.length_append, List.length_cons, hfind, hlen]
  simp [show codec.nextIndex ≤ line.length + (rest.length + 1) by omega, List.drop_append_eq_append_drop,
    List.take_append_eq_append_take]

theorem withoutCarriageReturn_render (m : α) : withoutCarriageReturn (json.render m) = json.render m := by
  simp [withoutCarriageReturn, json.getLast?_ne m]

/-- A newline-free prefix is scanned from wherever the search stopped. -/
theorem Scanned.le {codec : LinesCodec} {line rest : List UInt8} (h : Scanned codec (line ++ newline :: rest)) :
    codec.nextIndex ≤ line.length := by
  by_contra hlt
  refine h.2 (List.mem_iff_get.2 ⟨⟨line.length, ?_⟩, ?_⟩)
  · simp only [List.length_take, List.length_append, List.length_cons]; omega
  · simp [List.getElem_take, List.getElem_append_right]

theorem Codec.decode_encode {codec : LinesCodec} {m : α} {rest : List UInt8}
    (h : Scanned codec (Codec.encode json m ++ rest)) :
    Codec.decode json codec (Codec.encode json m ++ rest) = some (⟨0⟩, rest, .ok (some m)) := by
  simp only [Codec.encode, List.append_assoc, List.singleton_append] at h ⊢
  rw [Codec.decode, LinesCodec.decode_line h.le (json.newline_not_mem m)]
  simp [withoutCarriageReturn_render, json.parse_render, Except.map]

theorem Codec.decode_partial {codec : LinesCodec} {buf : List UInt8}
    (hle : codec.nextIndex ≤ buf.length) (h : newline ∉ buf) :
    Codec.decode json codec buf = some (⟨buf.length⟩, buf, .ok none) := by
  simp [Codec.decode, LinesCodec.decode_partial hle h]

/-! ### Streams of encoded messages -/

/-- Each encoding ends in its newline. -/
theorem newline_mem_encode (m : α) : newline ∈ Codec.encode json m := by simp [Codec.encode]

theorem length_le_encoded (ms : List α) : ms.length ≤ (ms.map (Codec.encode json)).flatten.length := by
  induction ms with
  | nil => simp
  | cons m ms ih =>
    simp only [List.map_cons, List.flatten_cons, List.length_append, Codec.encode, List.length_singleton,
      List.length_cons]
    omega

/-- A newline-free prefix of an encoding is a prefix of its JSON text. -/
theorem newline_not_mem_of_append {m : α} {p a : List UInt8} (h : Codec.encode json m = p ++ a)
    (ha : a ≠ []) : newline ∉ p := by
  rcases List.append_eq_append_iff.1 h.symm with ⟨x, hx, -⟩ | ⟨y, rfl, hy⟩
  · exact fun hp => json.newline_not_mem m (hx ▸ List.mem_append_left _ hp)
  · obtain ⟨rfl, -⟩ : y = [] ∧ a = [newline] := by
      rcases y with _ | ⟨b, y⟩
      · simpa using hy.symm
      · simp only [List.cons_append, List.singleton_append, List.cons.injEq] at hy
        exact absurd (List.append_eq_nil.1 hy.2.symm).2 ha
    simpa using json.newline_not_mem m

/-- Every prefix of a stream of encodings is some whole encodings and a partial line. -/
theorem split_encoded (ms : List α) {p q : List UInt8} (h : p ++ q = (ms.map (Codec.encode json)).flatten) :
    ∃ ms₁ ms₂ r, ms = ms₁ ++ ms₂ ∧ p = (ms₁.map (Codec.encode json)).flatten ++ r ∧ newline ∉ r ∧
      r ++ q = (ms₂.map (Codec.encode json)).flatten := by
  induction ms generalizing p with
  | nil =>
    obtain ⟨rfl, rfl⟩ := List.append_eq_nil.1 h
    exact ⟨[], [], [], rfl, rfl, by simp, rfl⟩
  | cons m ms ih =>
    rw [List.map_cons, List.flatten_cons] at h
    rcases List.append_eq_append_iff.1 h with ⟨a, hm, rfl⟩ | ⟨c, rfl, hc⟩
    · by_cases ha : a = []
      · subst ha
        exact ⟨[m], ms, [], rfl, by simpa using hm.symm, by simp, by simp⟩
      · exact ⟨[], m :: ms, p, rfl, by simp, newline_not_mem_of_append json hm ha, by simp [hm]⟩
    · obtain ⟨ms₁, ms₂, r, rfl, rfl, hr, hq⟩ := ih hc.symm
      exact ⟨m :: ms₁, ms₂, r, rfl, by simp, hr, hq⟩

/-- Draining a buffer of whole encodings and a partial line yields the messages and keeps the
partial line, with the search resuming at its end. -/
theorem drain_encoded (ms : List α) {r : List UInt8} (hr : newline ∉ r) {codec : LinesCodec}
    (hs : Scanned codec ((ms.map (Codec.encode json)).flatten ++ r)) {fuel : Nat} (hfuel : ms.length < fuel) :
    drain json fuel codec ((ms.map (Codec.encode json)).flatten ++ r) = some (⟨r.length⟩, r, .ok ms) := by
  induction ms generalizing codec fuel with
  | nil =>
    obtain ⟨fuel, rfl⟩ : ∃ n, fuel = n + 1 := ⟨fuel - 1, by simp at hfuel; omega⟩
    simp only [List.map_nil, List.flatten_nil, List.nil_append] at hs ⊢
    simp [drain, Codec.decode_partial json hs.1 hr]
  | cons m ms ih =>
    obtain ⟨fuel, rfl⟩ : ∃ n, fuel = n + 1 := ⟨fuel - 1, by simp at hfuel; omega⟩
    simp only [List.map_cons, List.flatten_cons, List.append_assoc] at hs ⊢
    have hs' : Scanned ⟨0⟩ ((ms.map (Codec.encode json)).flatten ++ r) := ⟨Nat.zero_le _, by simp⟩
    simp [drain, Codec.decode_encode json hs, ih hs' (by simpa using hfuel), Except.map]

theorem feed_encoded (chunks : List (List UInt8)) {ms : List α} {r : List UInt8} {codec : LinesCodec}
    (hr : newline ∉ r) (hle : codec.nextIndex ≤ r.length)
    (h : r ++ chunks.flatten = (ms.map (Codec.encode json)).flatten) :
    ∃ codec', feed json chunks codec r = some (codec', [], .ok ms) := by
  induction chunks generalizing ms r codec with
  | nil =>
    cases ms with
    | nil => exact ⟨codec, by simp_all [feed]⟩
    | cons m ms =>
      refine absurd ?_ hr
      simp only [List.flatten_nil, List.append_nil] at h
      exact h ▸ List.mem_flatten.2 ⟨_, List.mem_map_of_mem _ (List.mem_cons_self m ms), newline_mem_encode json m⟩
  | cons chunk chunks ih =>
    rw [List.flatten_cons, ← List.append_assoc] at h
    obtain ⟨ms₁, ms₂, r', rfl, hp, hr', hq⟩ := split_encoded json ms h
    have hs : Scanned codec (r ++ chunk) := by
      refine ⟨by simp; omega, ?_⟩
      rw [List.take_append_of_le_length hle]
      exact fun hn => hr (List.mem_of_mem_take hn)
    have hfuel : ms₁.length < (r ++ chunk).length + 1 := by
      have := length_le_encoded json ms₁
      rw [hp, List.length_append] at *; omega
    rw [hp] at hs hfuel
    obtain ⟨codec', hfeed⟩ := ih hr' le_rfl hq
    refine ⟨codec', ?_⟩
    simp only [feed, hp]
    rw [drain_encoded json ms₁ hr' hs hfuel]
    simp [hfeed, Except.map]

/-- Decoding the chunks of a stream of encoded messages yields exactly the messages, in order,
and leaves the buffer empty; on a partial line `decode` returns `None`. -/
theorem decode_chunks (ms : List α) (chunks : List (List UInt8))
    (h : chunks.flatten = (ms.map (Codec.encode json)).flatten) :
    (∃ codec, feed json chunks ⟨0⟩ [] = some (codec, [], .ok ms)) ∧
      ∀ codec buf, codec.nextIndex ≤ buf.length → newline ∉ buf →
        Codec.decode json codec buf = some (⟨buf.length⟩, buf, .ok none) :=
  ⟨feed_encoded json chunks (by simp) le_rfl (by simpa using h),
    fun _ _ hle h => Codec.decode_partial json hle h⟩

/-- `serde_json` on `bool`: `true` and `false`. -/
def boolJson : Json Bool where
  render b := if b then [116, 114, 117, 101] else [102, 97, 108, 115, 101]
  parse l :=
    if l = [116, 114, 117, 101] then .ok true
    else if l = [102, 97, 108, 115, 101] then .ok false
    else .error .invalidData
  parse_render b := by cases b <;> rfl
  newline_not_mem b := by cases b <;> decide
  getLast?_ne b := by cases b <;> decide

/-- `true\nfalse\n`, cut inside both messages and between them. -/
theorem decode_chunks_bools :
    ∃ codec, feed boolJson [[116, 114], [117, 101, 10, 102, 97], [108, 115, 101, 10]] ⟨0⟩ [] =
      some (codec, [], .ok [true, false]) :=
  (decode_chunks boolJson [true, false] _ rfl).1

end Northstar
