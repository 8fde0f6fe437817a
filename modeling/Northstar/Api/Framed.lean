import Northstar.Api.Codec

/-!
# Raw bytes after the frames

`Framed` of `api/codec.rs` is `tokio_util`'s `Framed` over the codec, with an `AsyncRead` whose
`poll_read` hands out the bytes of the read buffer before it reads the inner stream. An install
uses both: its header is decoded as a frame and the package is then read raw.

The inner stream's arrival is a list of chunks. `Framed` reads a whole chunk into its buffer; a
raw read of the inner stream returns at most the room it is given, from the first chunk.
`pollNext` is `Stream::poll_next` as `tokio_util`'s `FramedImpl` runs it: decode from the read
buffer, and when no frame is there read the next chunk into it. `pollRead` is `Framed::poll_read`.

`raw_after_frames`: for a stream of encoded messages followed by any payload, every chunking of it
and every sequence of read sizes from 1, the frames decode to the messages, and the raw reads then
return the payload: what they returned and what is still buffered or on the inner stream always
make up the payload, once there are as many reads as payload bytes they have returned all of it,
and while they have returned no more than the buffer held the inner stream is untouched.
-/

namespace Northstar

variable {α : Type} (json : Json α)

/-- `Stream::poll_next` of `Framed`: the frame, the codec, the read buffer and the chunks not yet
read; `none` at the end of the stream, or where decoding fails or panics. -/
def pollNext (codec : LinesCodec) (buffer : List UInt8) (inner : List (List UInt8)) :
    Option (α × LinesCodec × List UInt8 × List (List UInt8)) :=
  match Codec.decode json codec buffer, inner with
  | some (codec, buffer, .ok (some m)), inner => some (m, codec, buffer, inner)
  | some (codec, buffer, .ok none), chunk :: inner => pollNext codec (buffer ++ chunk) inner
  | _, _ => none

/-- `k` calls of `poll_next`. -/
def readFrames : Nat → LinesCodec → List UInt8 → List (List UInt8) →
    Option (List α × LinesCodec × List UInt8 × List (List UInt8))
  | 0, codec, buffer, inner => some ([], codec, buffer, inner)
  | k + 1, codec, buffer, inner =>
    match pollNext json codec buffer inner with
    | some (m, codec, buffer, inner) => (readFrames k codec buffer inner).map fun (ms, rest) => (m :: ms, rest)
    | none => none

/-- `Framed::poll_read` with room `n` in the destination: the bytes put there, the read buffer and
the chunks left on the inner stream. -/
def pollRead (n : Nat) (buffer : List UInt8) (inner : List (List UInt8)) :
    List UInt8 × List UInt8 × List (List UInt8) :=
  if buffer.isEmpty then
    match inner with
    | [] => ([], [], [])
    | chunk :: chunks => (chunk.take n, [], if chunk.length ≤ n then chunks else chunk.drop n :: chunks)
  else
    let n := min n buffer.length
    (buffer.take n, buffer.drop n, inner)

/-- Successive `poll_read` calls with the given room: what each returned, and the read buffer and
the chunks left after the last. -/
def readRaw : List Nat → List UInt8 → List (List UInt8) → List (List UInt8) × List UInt8 × List (List UInt8)
  | [], buffer, inner => ([], buffer, inner)
  | n :: sizes, buffer, inner =>
    let r := pollRead n buffer inner
    let rest := readRaw sizes r.2.1 r.2.2
    (r.1 :: rest.1, rest.2)

/-- A frame's line: it holds no newline, and without its carriage return it parses to the
message. The codec's own encodings are such lines (`frame_render`). -/
def Frame (line : List UInt8) (m : α) : Prop :=
  newline ∉ line ∧ json.parse (withoutCarriageReturn line) = .ok m

theorem frame_render (m : α) : Frame json (json.render m) m :=
  ⟨json.newline_not_mem m, by rw [withoutCarriageReturn_render, json.parse_render]⟩

/-! ### Decoding the frames -/

section Decoding

variable {codec : LinesCodec} {m : α} {line rest : List UInt8}

/-- A whole line in the buffer is decoded without reading. -/
theorem pollNext_whole (hline : Frame json line m) (inner : List (List UInt8))
    (hs : Scanned codec (line ++ newline :: rest)) :
    pollNext json codec (line ++ newline :: rest) inner = some (m, ⟨0⟩, rest, inner) := by
  rw [pollNext.eq_def, Codec.decode, LinesCodec.decode_line hs.le hline.1]
  simp [hline.2, Except.map]

/-- Without a newline in the buffer, `poll_next` reads the next chunk and searches on from the
buffer's end. -/
theorem pollNext_reads {buffer : List UInt8} (hle : codec.nextIndex ≤ buffer.length) (hnl : newline ∉ buffer)
    (chunk : List UInt8) (inner : List (List UInt8)) :
    pollNext json codec buffer (chunk :: inner) = pollNext json ⟨buffer.length⟩ (buffer ++ chunk) inner := by
  rw [pollNext.eq_def, Codec.decode_partial json hle hnl]

/-- A prefix of a stream that starts with a newline-free line and holds a newline holds the
whole line. -/
theorem eq_line_append {p q : List UInt8} (hline : newline ∉ line) (h : p ++ q = line ++ newline :: rest)
    (hp : newline ∈ p) : ∃ c, p = line ++ newline :: c ∧ rest = c ++ q := by
  rcases List.append_eq_append_iff.1 h with ⟨a, rfl, -⟩ | ⟨_ | ⟨b, c⟩, rfl, hc⟩
  · exact absurd (List.mem_append_left a hp) hline
  · exact absurd (by simpa using hp) hline
  · obtain ⟨rfl, rfl⟩ := List.cons_eq_cons.1 hc
    exact ⟨c, rfl, rfl⟩

/-- From a buffer and chunks that hold a frame's line and more, `poll_next` returns its message and
leaves the rest, having read chunks only as far as the line reaches. -/
theorem pollNext_line (hline : Frame json line m) :
    ∀ {inner : List (List UInt8)} {codec : LinesCodec} {buffer : List UInt8}, Scanned codec buffer →
      buffer ++ inner.flatten = line ++ newline :: rest →
      ∃ buffer' inner', pollNext json codec buffer inner = some (m, ⟨0⟩, buffer', inner') ∧
        buffer' ++ inner'.flatten = rest ∧ inner' <:+ inner := by
  intro inner
  induction inner with
  | nil =>
    intro codec buffer hs h
    rw [List.flatten_nil, List.append_nil] at h
    subst h
    exact ⟨rest, [], pollNext_whole json hline [] hs, by simp, List.suffix_refl _⟩
  | cons chunk inner ih =>
    intro codec buffer hs h
    by_cases hnl : newline ∈ buffer
    · obtain ⟨c, rfl, rfl⟩ := eq_line_append hline.1 h hnl
      exact ⟨c, chunk :: inner, pollNext_whole json hline _ hs, rfl, List.suffix_refl _⟩
    · obtain ⟨buffer', inner', hnext, hrest, hsuffix⟩ := ih
        (show Scanned ⟨buffer.length⟩ (buffer ++ chunk) from ⟨by simp, by simpa using hnl⟩) (by rw [List.append_assoc, ← List.flatten_cons, h])
      exact ⟨buffer', inner', (pollNext_reads json hs.1 hnl chunk inner).trans hnext, hrest,
        hsuffix.trans (List.suffix_cons _ _)⟩

/-- As many `poll_next` calls as there are frames' lines at the head of the stream decode to their
messages and leave the rest, with the chunks left a suffix of those given. -/
theorem readFrames_lines {lines : List (List UInt8)} {ms : List α} (hlines : List.Forall₂ (Frame json) lines ms) :
    ∀ {codec : LinesCodec} {buffer rest : List UInt8} {inner : List (List UInt8)}, Scanned codec buffer →
      buffer ++ inner.flatten = (lines.map (· ++ [newline])).flatten ++ rest →
      ∃ codec' buffer' inner', readFrames json ms.length codec buffer inner = some (ms, codec', buffer', inner') ∧
        buffer' ++ inner'.flatten = rest ∧ inner' <:+ inner := by
  induction hlines with
  | nil => exact fun _ h => ⟨_, _, _, rfl, by simpa using h, List.suffix_refl _⟩
  | cons hline _ ih =>
    intro codec buffer rest inner hs h
    simp only [List.map_cons, List.flatten_cons, List.append_assoc, List.singleton_append] at h
    obtain ⟨buffer₁, inner₁, hnext, h₁, hsuffix₁⟩ := pollNext_line json hline hs h
    obtain ⟨codec', buffer', inner', hframes, h', hsuffix'⟩ := ih ⟨Nat.zero_le _, by simp⟩ h₁
    refine ⟨codec', buffer', inner', ?_, h', hsuffix'.trans hsuffix₁⟩
    simp only [List.length_cons, readFrames, hnext, hframes, Option.map_some']

end Decoding

/-! ### Raw reads -/

section Raw

variable {n : Nat} {buffer : List UInt8} {inner : List (List UInt8)}

@[simp] theorem pollRead_buffered (hb : buffer ≠ []) : pollRead n buffer inner = (buffer.take n, buffer.drop n, inner) := by
  rcases le_total n buffer.length with h | h
  · simp [pollRead, hb, min_eq_left h]
  · simp [pollRead, hb, min_eq_right h, List.take_of_length_le h, List.drop_of_length_le h]

@[simp] theorem pollRead_nil_nil : pollRead n [] [] = ([], [], []) := rfl

@[simp] theorem pollRead_nil_cons (chunk : List UInt8) (chunks : List (List UInt8)) :
    pollRead n [] (chunk :: chunks) =
      (chunk.take n, [], if chunk.length ≤ n then chunks else chunk.drop n :: chunks) := rfl

/-- One read moves bytes from the head of the buffer, or else of the inner stream, to the
destination: nothing is lost or duplicated. -/
theorem pollRead_pending (n : Nat) (buffer : List UInt8) (inner : List (List UInt8)) :
    (pollRead n buffer inner).1 ++ (pollRead n buffer inner).2.1 ++ (pollRead n buffer inner).2.2.flatten =
      buffer ++ inner.flatten := by
  rcases eq_or_ne buffer [] with rfl | hb
  · rcases inner with _ | ⟨chunk, chunks⟩
    · rfl
    · by_cases hle : chunk.length ≤ n
      · simp [hle, List.take_of_length_le hle]
      · simp only [pollRead_nil_cons, hle, if_false, List.append_nil, List.flatten_cons, ← List.append_assoc,
          List.take_append_drop, List.nil_append]
  · simp [hb]

/-- The chunks left on the inner stream are never empty. -/
theorem pollRead_chunks (hne : [] ∉ inner) : [] ∉ (pollRead n buffer inner).2.2 := by
  rcases eq_or_ne buffer [] with rfl | hb
  · rcases inner with _ | ⟨chunk, chunks⟩
    · simp
    · simp only [List.mem_cons, not_or] at hne
      by_cases hle : chunk.length ≤ n
      · simpa [hle] using hne.2
      · simp only [pollRead_nil_cons, hle, if_false, List.mem_cons, not_or]
        exact ⟨fun h => hle (by simp [List.drop_eq_nil_iff.1 h.symm]), hne.2⟩
  · simpa [hb] using hne

/-- A read with room returns a byte while any is buffered or on the inner stream. -/
theorem pollRead_progress (hn : 0 < n) (hne : [] ∉ inner) (hpending : buffer ++ inner.flatten ≠ []) :
    (pollRead n buffer inner).1 ≠ [] := by
  rcases eq_or_ne buffer [] with rfl | hb
  · rcases inner with _ | ⟨chunk, chunks⟩
    · simp at hpending
    · simpa [Nat.pos_iff_ne_zero.1 hn] using fun h : chunk = [] => hne (h ▸ List.mem_cons_self _ _)
  · simpa [hb] using Nat.pos_iff_ne_zero.1 hn

/-- A read that returns no more than the buffer holds takes only from the buffer. -/
theorem pollRead_from_buffer (hne : [] ∉ inner) (hlen : (pollRead n buffer inner).1.length ≤ buffer.length) :
    (pollRead n buffer inner).2.2 = inner := by
  rcases eq_or_ne buffer [] with rfl | hb
  · rcases inner with _ | ⟨chunk, chunks⟩
    · rfl
    · have hchunk : chunk ≠ [] := fun h => hne (h ▸ List.mem_cons_self _ _)
      have hn : n = 0 := by
        simp only [pollRead_nil_cons, List.length_take, List.length_nil, Nat.le_zero, Nat.min_eq_zero_iff] at hlen
        exact hlen.resolve_right (by simpa using hchunk)
      subst hn
      simp [hchunk]
  · simp [hb]

/-- Successive reads: what they returned and what is still buffered or on the inner stream make
up what was pending before them. -/
theorem readRaw_pending (sizes : List Nat) (buffer : List UInt8) (inner : List (List UInt8)) :
    (readRaw sizes buffer inner).1.flatten ++ (readRaw sizes buffer inner).2.1 ++
      (readRaw sizes buffer inner).2.2.flatten = buffer ++ inner.flatten := by
  induction sizes generalizing buffer inner with
  | nil => simp [readRaw]
  | cons n sizes ih =>
    simp only [readRaw, List.flatten_cons, List.append_assoc] at ih ⊢
    rw [ih, ← List.append_assoc, pollRead_pending]

/-- With room in each and as many reads as bytes pending, the reads return all of them. -/
theorem readRaw_drains {sizes : List Nat} (hsizes : ∀ n ∈ sizes, 0 < n) (hne : [] ∉ inner)
    (hlen : (buffer ++ inner.flatten).length ≤ sizes.length) :
    (readRaw sizes buffer inner).2.1 ++ (readRaw sizes buffer inner).2.2.flatten = [] := by
  induction sizes generalizing buffer inner with
  | nil => exact List.length_eq_zero.1 (Nat.le_zero.1 hlen)
  | cons n sizes ih =>
    refine ih (fun k hk => hsizes k (List.mem_cons_of_mem n hk)) (pollRead_chunks hne) ?_
    have hpending := congrArg List.length (pollRead_pending n buffer inner)
    have hread : (buffer ++ inner.flatten).length = 0 ∨ 0 < (pollRead n buffer inner).1.length := by
      rcases eq_or_ne (buffer ++ inner.flatten) [] with hnil | hpos
      · exact .inl (by rw [hnil]; rfl)
      · exact .inr (List.length_pos.2 (pollRead_progress (hsizes n (List.mem_cons_self n sizes)) hne hpos))
    simp only [List.length_append, List.length_cons] at hpending hlen hread ⊢
    omega

/-- Reads that return no more than the buffer held take only from the buffer. -/
theorem readRaw_from_buffer {sizes : List Nat} (hne : [] ∉ inner)
    (hlen : (readRaw sizes buffer inner).1.flatten.length ≤ buffer.length) :
    (readRaw sizes buffer inner).2.2 = inner := by
  induction sizes generalizing buffer inner with
  | nil => rfl
  | cons n sizes ih =>
    simp only [readRaw, List.flatten_cons, List.length_append] at hlen ⊢
    have hinner : (pollRead n buffer inner).2.2 = inner := pollRead_from_buffer hne (by omega)
    have hpending := congrArg List.length (pollRead_pending n buffer inner)
    rw [hinner] at hpending hlen ⊢
    simp only [List.length_append] at hpending
    exact ih hne (by omega)

end Raw

/-! ### Frames, then raw bytes -/

/-- A read of the inner stream that returns no bytes is its end, so the chunks of an arrival are
never empty. -/
theorem raw_after_frames (lines : List (List UInt8)) (ms : List α) (payload : List UInt8)
    (chunks : List (List UInt8)) (hlines : List.Forall₂ (Frame json) lines ms)
    (hchunks : chunks.flatten = (lines.map (· ++ [newline])).flatten ++ payload) (hne : [] ∉ chunks) :
    ∃ codec buffer inner, readFrames json ms.length ⟨0⟩ [] chunks = some (ms, codec, buffer, inner) ∧
      ∀ sizes : List Nat, (∀ n ∈ sizes, 0 < n) →
        (readRaw sizes buffer inner).1.flatten ++ (readRaw sizes buffer inner).2.1 ++
            (readRaw sizes buffer inner).2.2.flatten = payload ∧
          (payload.length ≤ sizes.length → (readRaw sizes buffer inner).1.flatten = payload) ∧
          ((readRaw sizes buffer inner).1.flatten.length ≤ buffer.length →
            (readRaw sizes buffer inner).2.2 = inner) := by
  obtain ⟨codec, buffer, inner, hframes, hrest, hsuffix⟩ :=
    readFrames_lines json hlines (show Scanned ⟨0⟩ [] from ⟨le_rfl, by simp⟩) (by rw [List.nil_append, hchunks])
  have hne' : [] ∉ inner := fun h => hne (hsuffix.subset h)
  refine ⟨codec, buffer, inner, hframes, fun sizes hsizes => ⟨?_, fun hlen => ?_, readRaw_from_buffer hne'⟩⟩
  · rw [readRaw_pending, hrest]
  · have hpending := (readRaw_pending sizes buffer inner).trans hrest
    rwa [List.append_assoc, readRaw_drains hsizes hne' (hrest ▸ hlen), List.append_nil] at hpending

/-- `true` and the payload `1 2 3`, arriving as `tr`, `ue\n1` and `23`. -/
theorem raw_after_frames_true :
    ∃ codec buffer inner, readFrames boolJson 1 ⟨0⟩ [] [[116, 114], [117, 101, 10, 1], [2, 3]] =
        some ([true], codec, buffer, inner) ∧
      ∀ sizes : List Nat, (∀ n ∈ sizes, 0 < n) →
        (readRaw sizes buffer inner).1.flatten ++ (readRaw sizes buffer inner).2.1 ++
            (readRaw sizes buffer inner).2.2.flatten = [1, 2, 3] ∧
          ([1, 2, 3].length ≤ sizes.length → (readRaw sizes buffer inner).1.flatten = [1, 2, 3]) ∧
          ((readRaw sizes buffer inner).1.flatten.length ≤ buffer.length →
            (readRaw sizes buffer inner).2.2 = inner) :=
  raw_after_frames boolJson [boolJson.render true] [true] [1, 2, 3] _ (.cons (frame_render boolJson true) .nil)
    rfl (by decide)

end Northstar
