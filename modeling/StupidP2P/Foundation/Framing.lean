import Mathlib.Data.List.Basic
import Mathlib.Tactic.Basic

/-!
# Length-prefixed frames

A stream of frames, each a body behind its length as a 4-byte big-endian signed
integer.  `decode` is the reference decoder: it takes frames from the front as long
as their lengths are admitted and their bodies are complete, and stops for good at
the first length that is not admitted.

The two facts a receiver needs are `decode_append`, which says that decoding can be
interrupted anywhere and resumed from the bytes left over, and `decode_encodeAll`,
which says that the frames of a stream are recovered.
-/

namespace StupidP2P
namespace Foundation

/-- The value of a signed 32-bit integer with the given low bits. -/
def wrap32 (x : Int) : Int := x.bmod 4294967296

theorem wrap32_of_range {x : Int} (hlow : -2147483648 ≤ x) (hhigh : x < 2147483648) :
    wrap32 x = x := by
  unfold wrap32
  rw [Int.bmod_def]
  split <;> omega

/-- An unsigned value that does not become negative stays what it is. -/
theorem wrap32_of_nonneg {x : Int} (hlow : 0 ≤ x) (hhigh : x < 4294967296)
    (hnonneg : 0 ≤ wrap32 x) : wrap32 x = x := by
  unfold wrap32 at hnonneg ⊢
  rw [Int.bmod_def] at hnonneg ⊢
  split at hnonneg <;> omega

/-- A signed 32-bit integer is in its range. -/
theorem wrap32_bounds (x : Int) : -2147483648 ≤ wrap32 x ∧ wrap32 x < 2147483648 := by
  have hlow := @Int.le_bmod x 4294967296 (by decide)
  have hhigh := @Int.bmod_lt x 4294967296 (by decide)
  unfold wrap32
  omega

theorem wrap32_eq_iff (x : Int) : wrap32 x = x ↔ -2147483648 ≤ x ∧ x < 2147483648 := by
  constructor
  · intro h
    exact h ▸ wrap32_bounds x
  · rintro ⟨hlow, hhigh⟩
    exact wrap32_of_range hlow hhigh

/-- Reducing early does not change a sum. -/
theorem wrap32_add_wrap32 (x y : Int) : wrap32 (wrap32 x + y) = wrap32 (x + y) := by
  unfold wrap32
  exact Int.bmod_add_bmod

namespace Framing

/-- The signed value of four bytes, most significant first. -/
def headerValue (a b c d : UInt8) : Int :=
  wrap32 (a.toNat * 16777216 + b.toNat * 65536 + c.toNat * 256 + d.toNat)

theorem headerValue_bounds (a b c d : UInt8) :
    -2147483648 ≤ headerValue a b c d ∧ headerValue a b c d < 2147483648 :=
  wrap32_bounds _

/-- The four bytes of a length, most significant first. -/
def bigEndian (n : Nat) : List UInt8 :=
  [UInt8.ofNat (n / 16777216), UInt8.ofNat (n / 65536), UInt8.ofNat (n / 256), UInt8.ofNat n]

@[simp] theorem length_bigEndian (n : Nat) : (bigEndian n).length = 4 := rfl

/-- A length of four bytes is read back as a signed number. -/
theorem headerValue_bigEndian_wrap {n : Nat} (hn : n < 4294967296) :
    headerValue (UInt8.ofNat (n / 16777216)) (UInt8.ofNat (n / 65536))
      (UInt8.ofNat (n / 256)) (UInt8.ofNat n) = wrap32 n := by
  unfold headerValue
  simp only [UInt8.toNat_ofNat']
  congr 1
  omega

theorem headerValue_bigEndian {n : Nat} (hn : n < 2147483648) :
    headerValue (UInt8.ofNat (n / 16777216)) (UInt8.ofNat (n / 65536))
      (UInt8.ofNat (n / 256)) (UInt8.ofNat n) = n := by
  rw [headerValue_bigEndian_wrap (by omega), wrap32_of_range (by omega) (by omega)]

/-- The four bytes are the digits of the length. -/
theorem bigEndian_of_digits {n : Nat} {a b c d : UInt8}
    (hn : n = a.toNat * 16777216 + b.toNat * 65536 + c.toNat * 256 + d.toNat) :
    bigEndian n = [a, b, c, d] := by
  have ha := a.toNat_lt
  have hb := b.toNat_lt
  have hc := c.toNat_lt
  have hd := d.toNat_lt
  simp only [bigEndian, List.cons.injEq, and_true]
  refine ⟨?_, ?_, ?_, ?_⟩
  · rw [← UInt8.toNat_inj, UInt8.toNat_ofNat']
    omega
  · rw [← UInt8.toNat_inj, UInt8.toNat_ofNat']
    omega
  · rw [← UInt8.toNat_inj, UInt8.toNat_ofNat']
    omega
  · rw [← UInt8.toNat_inj, UInt8.toNat_ofNat']
    omega

/-- A length that is not negative has one header only. -/
theorem bigEndian_headerValue {a b c d : UInt8} (hnonneg : 0 ≤ headerValue a b c d) :
    bigEndian (headerValue a b c d).toNat = [a, b, c, d] := by
  have ha := a.toNat_lt
  have hb := b.toNat_lt
  have hc := c.toNat_lt
  have hd := d.toNat_lt
  have hvalue : headerValue a b c d =
      a.toNat * 16777216 + b.toNat * 65536 + c.toNat * 256 + d.toNat :=
    wrap32_of_nonneg (by omega) (by omega) hnonneg
  exact bigEndian_of_digits (by omega)

/-- What stands at the front of a stream. -/
inductive Head
  | frame (body rest : List UInt8)
  | short
  | bad

/-- Look at the front of a stream; `admits` says which lengths are accepted. -/
def head (admits : Int → Bool) : List UInt8 → Head
  | a :: b :: c :: d :: rest =>
      let len := headerValue a b c d
      if admits len then
        if len.toNat ≤ rest.length then .frame (rest.take len.toNat) (rest.drop len.toNat)
        else .short
      else .bad
  | _ => .short

section

variable {admits : Int → Bool} {bytes body rest : List UInt8}

theorem head_cons (a b c d : UInt8) (tail : List UInt8) :
    head admits (a :: b :: c :: d :: tail) =
      if admits (headerValue a b c d) then
        if (headerValue a b c d).toNat ≤ tail.length then
          .frame (tail.take (headerValue a b c d).toNat) (tail.drop (headerValue a b c d).toNat)
        else .short
      else .bad := by
  rw [head]

theorem head_of_length_lt (h : bytes.length < 4) : head admits bytes = .short := by
  unfold head
  split
  · simp only [List.length_cons] at h
    omega
  · rfl

theorem exists_header_of_length (h : 4 ≤ bytes.length) :
    ∃ a b c d tail, bytes = a :: b :: c :: d :: tail := by
  match bytes, h with
  | a :: b :: c :: d :: tail, _ => exact ⟨a, b, c, d, tail, rfl⟩

/-- What it means that a complete frame stands in front. -/
theorem head_frame_iff :
    head admits bytes = .frame body rest ↔
      ∃ a b c d, bytes = a :: b :: c :: d :: (body ++ rest) ∧
        admits (headerValue a b c d) = true ∧ (headerValue a b c d).toNat = body.length := by
  constructor
  · intro h
    by_cases hlength : bytes.length < 4
    · rw [head_of_length_lt hlength] at h
      simp at h
    · obtain ⟨a, b, c, d, tail, rfl⟩ := exists_header_of_length (Nat.le_of_not_lt hlength)
      rw [head_cons] at h
      split at h
      · rename_i hadmits
        split at h
        · rename_i hle
          rw [Head.frame.injEq] at h
          obtain ⟨rfl, rfl⟩ := h
          refine ⟨a, b, c, d, by rw [List.take_append_drop], hadmits, ?_⟩
          rw [List.length_take]
          omega
        · simp at h
      · simp at h
  · rintro ⟨a, b, c, d, rfl, hadmits, hlength⟩
    rw [head_cons, if_pos hadmits, hlength, if_pos (by simp)]
    simp

/-- What it means that a bad length stands in front. -/
theorem head_bad_iff :
    head admits bytes = .bad ↔
      ∃ a b c d tail, bytes = a :: b :: c :: d :: tail ∧
        admits (headerValue a b c d) = false := by
  constructor
  · intro h
    by_cases hlength : bytes.length < 4
    · rw [head_of_length_lt hlength] at h
      simp at h
    · obtain ⟨a, b, c, d, tail, rfl⟩ := exists_header_of_length (Nat.le_of_not_lt hlength)
      rw [head_cons] at h
      split at h
      · split at h <;> simp at h
      · rename_i hadmits
        exact ⟨a, b, c, d, tail, rfl, by simpa using hadmits⟩
  · rintro ⟨a, b, c, d, tail, rfl, hadmits⟩
    rw [head_cons, hadmits]
    rfl

/-- What it means that the first frame is incomplete. -/
theorem head_short_iff :
    head admits bytes = .short ↔
      bytes.length < 4 ∨ ∃ a b c d tail, bytes = a :: b :: c :: d :: tail ∧
        admits (headerValue a b c d) = true ∧ tail.length < (headerValue a b c d).toNat := by
  constructor
  · intro h
    by_cases hlength : bytes.length < 4
    · exact Or.inl hlength
    · right
      obtain ⟨a, b, c, d, tail, rfl⟩ := exists_header_of_length (Nat.le_of_not_lt hlength)
      rw [head_cons] at h
      split at h
      · rename_i hadmits
        split at h
        · simp at h
        · rename_i hlt
          exact ⟨a, b, c, d, tail, rfl, hadmits, Nat.lt_of_not_le hlt⟩
      · simp at h
  · rintro (hlength | ⟨a, b, c, d, tail, rfl, hadmits, hlt⟩)
    · exact head_of_length_lt hlength
    · rw [head_cons, if_pos hadmits, if_neg (Nat.not_le_of_lt hlt)]

theorem head_frame_length (h : head admits bytes = .frame body rest) :
    bytes.length = 4 + body.length + rest.length := by
  obtain ⟨a, b, c, d, rfl, -, -⟩ := head_frame_iff.mp h
  simp only [List.length_cons, List.length_append]
  omega

/-- A complete frame stays the first frame when more bytes arrive. -/
theorem head_append_frame (more : List UInt8) (h : head admits bytes = .frame body rest) :
    head admits (bytes ++ more) = .frame body (rest ++ more) := by
  obtain ⟨a, b, c, d, rfl, hadmits, hlength⟩ := head_frame_iff.mp h
  exact head_frame_iff.mpr ⟨a, b, c, d, by simp, hadmits, hlength⟩

/-- A length that is not admitted stays in front for ever. -/
theorem head_append_bad (more : List UInt8) (h : head admits bytes = .bad) :
    head admits (bytes ++ more) = .bad := by
  obtain ⟨a, b, c, d, tail, rfl, hadmits⟩ := head_bad_iff.mp h
  exact head_bad_iff.mpr ⟨a, b, c, d, tail ++ more, rfl, hadmits⟩

end

/-- The result of decoding: the complete frames, what is left over, and whether a
length that is not admitted stands in front of it. -/
structure Decoding where
  frames : List (List UInt8)
  rest : List UInt8
  stopped : Bool
deriving DecidableEq

variable (admits : Int → Bool)

/-- The reference decoder. -/
def decode (bytes : List UInt8) : Decoding :=
  match _hhead : head admits bytes with
  | .frame body rest =>
      let d := decode rest
      ⟨body :: d.frames, d.rest, d.stopped⟩
  | .short => ⟨[], bytes, false⟩
  | .bad => ⟨[], bytes, true⟩
termination_by bytes.length
decreasing_by
  have := head_frame_length _hhead
  omega

variable {admits} {bytes body rest : List UInt8}

theorem decode_of_frame (h : head admits bytes = .frame body rest) :
    decode admits bytes = ⟨body :: (decode admits rest).frames, (decode admits rest).rest,
      (decode admits rest).stopped⟩ := by
  rw [decode]
  split
  · rename_i body' rest' heq
    rw [h, Head.frame.injEq] at heq
    obtain ⟨rfl, rfl⟩ := heq
    rfl
  · rename_i heq
    simp [h] at heq
  · rename_i heq
    simp [h] at heq

theorem decode_of_short (h : head admits bytes = .short) :
    decode admits bytes = ⟨[], bytes, false⟩ := by
  rw [decode]
  split
  · rename_i heq
    simp [h] at heq
  · rfl
  · rename_i heq
    simp [h] at heq

theorem decode_of_bad (h : head admits bytes = .bad) :
    decode admits bytes = ⟨[], bytes, true⟩ := by
  rw [decode]
  split
  · rename_i heq
    simp [h] at heq
  · rename_i heq
    simp [h] at heq
  · rfl

/-- Induction along the frames of a stream. -/
@[elab_as_elim]
theorem frames_induction (admits : Int → Bool) {motive : List UInt8 → Prop}
    (frame : ∀ bytes body rest, head admits bytes = .frame body rest → motive rest →
      motive bytes)
    (short : ∀ bytes, head admits bytes = .short → motive bytes)
    (bad : ∀ bytes, head admits bytes = .bad → motive bytes) (bytes : List UInt8) :
    motive bytes := by
  induction hlen : bytes.length using Nat.strongRecOn generalizing bytes with
  | ind n ih =>
      cases hhead : head admits bytes with
      | frame body rest =>
          have hshorter : rest.length < n := by
            have := head_frame_length hhead
            omega
          exact frame bytes body rest hhead (ih rest.length hshorter rest rfl)
      | short => exact short bytes hhead
      | bad => exact bad bytes hhead

/-- **Decoding can be resumed.**  The frames of `xs ++ ys` are those of `xs`,
followed by those of what `xs` left over and `ys`. -/
theorem decode_append (xs ys : List UInt8) :
    decode admits (xs ++ ys) =
      ⟨(decode admits xs).frames ++ (decode admits ((decode admits xs).rest ++ ys)).frames,
        (decode admits ((decode admits xs).rest ++ ys)).rest,
        (decode admits ((decode admits xs).rest ++ ys)).stopped⟩ := by
  induction xs using frames_induction admits with
  | frame xs body rest hhead ih =>
      rw [decode_of_frame hhead, decode_of_frame (head_append_frame ys hhead), ih]
      rfl
  | short xs hhead =>
      rw [decode_of_short hhead]
      rfl
  | bad xs hhead =>
      rw [decode_of_bad hhead]
      rfl

/-- What is left over starts with no complete frame. -/
theorem head_rest (bytes : List UInt8) :
    head admits (decode admits bytes).rest =
      if (decode admits bytes).stopped then .bad else .short := by
  induction bytes using frames_induction admits with
  | frame bytes body rest hhead ih =>
      rw [decode_of_frame hhead]
      exact ih
  | short bytes hhead =>
      rw [decode_of_short hhead]
      exact hhead
  | bad bytes hhead =>
      rw [decode_of_bad hhead]
      exact hhead

/-- What is left over is the end of the stream. -/
theorem rest_suffix (bytes : List UInt8) : (decode admits bytes).rest <:+ bytes := by
  induction bytes using frames_induction admits with
  | frame bytes body rest hhead ih =>
      obtain ⟨a, b, c, d, rfl, -, -⟩ := head_frame_iff.mp hhead
      rw [decode_of_frame hhead]
      exact ih.trans (List.suffix_append (a :: b :: c :: d :: body) rest)
  | short bytes hhead => simp only [decode_of_short hhead, List.suffix_refl]
  | bad bytes hhead => simp only [decode_of_bad hhead, List.suffix_refl]

theorem decode_rest (bytes : List UInt8) :
    decode admits (decode admits bytes).rest =
      ⟨[], (decode admits bytes).rest, (decode admits bytes).stopped⟩ := by
  have hrest := @head_rest admits bytes
  cases hstopped : (decode admits bytes).stopped with
  | false =>
      rw [hstopped] at hrest
      exact decode_of_short hrest
  | true =>
      rw [hstopped] at hrest
      exact decode_of_bad hrest

/-- After a bad length nothing more is decoded. -/
theorem decode_append_stopped (hstopped : (decode admits bytes).stopped = true)
    (more : List UInt8) :
    decode admits ((decode admits bytes).rest ++ more) =
      ⟨[], (decode admits bytes).rest ++ more, true⟩ := by
  have hrest := @head_rest admits bytes
  rw [hstopped, if_pos rfl] at hrest
  exact decode_of_bad (head_append_bad more hrest)

/-- So a stream whose decoding goes on has not stopped before. -/
theorem stopped_of_append {xs ys : List UInt8}
    (h : (decode admits ((decode admits xs).rest ++ ys)).stopped = false) :
    (decode admits xs).stopped = false := by
  by_contra hstopped
  rw [Bool.not_eq_false] at hstopped
  rw [decode_append_stopped hstopped] at h
  simp at h

/-- The lengths of the frames decoded are admitted. -/
theorem admitted_of_mem_frames (bytes : List UInt8) :
    ∀ body ∈ (decode admits bytes).frames, ∃ len, admits len = true ∧ len.toNat = body.length := by
  induction bytes using frames_induction admits with
  | frame bytes body rest hhead ih =>
      obtain ⟨a, b, c, d, -, hadmits, hlength⟩ := head_frame_iff.mp hhead
      rw [decode_of_frame hhead]
      exact List.forall_mem_cons.mpr ⟨⟨_, hadmits, hlength⟩, ih⟩
  | short bytes hhead =>
      rw [decode_of_short hhead]
      simp
  | bad bytes hhead =>
      rw [decode_of_bad hhead]
      simp

/-- What is left over is shorter than the longest frame admitted. -/
theorem length_rest_lt {limit : Nat} (hlimit : ∀ len, admits len = true → len ≤ limit)
    (hstopped : (decode admits bytes).stopped = false) :
    (decode admits bytes).rest.length < 4 + limit := by
  have hrest := @head_rest admits bytes
  rw [hstopped, if_neg Bool.false_ne_true] at hrest
  rcases head_short_iff.mp hrest with hlt | ⟨a, b, c, d, tail, heq, hadmits, hlt⟩
  · omega
  · have hvalue := hlimit _ hadmits
    rw [heq]
    simp only [List.length_cons]
    omega

/-- A wider limit changes nothing as long as the narrower one is kept. -/
theorem decode_wider {wider : Int → Bool} (hwider : ∀ len, admits len = true → wider len = true)
    (hstopped : (decode admits bytes).stopped = false) :
    decode wider bytes = decode admits bytes := by
  induction bytes using frames_induction admits with
  | frame bytes body rest hhead ih =>
      obtain ⟨a, b, c, d, rfl, hadmits, hlength⟩ := head_frame_iff.mp hhead
      have hwide := (@head_frame_iff wider _ body rest).mpr
        ⟨a, b, c, d, rfl, hwider _ hadmits, hlength⟩
      rw [decode_of_frame hhead] at hstopped ⊢
      rw [decode_of_frame hwide, ih hstopped]
  | short bytes hhead =>
      have hwide : head wider bytes = .short := by
        rcases head_short_iff.mp hhead with hlt | ⟨a, b, c, d, tail, heq, hadmits, hlt⟩
        · exact head_of_length_lt hlt
        · exact head_short_iff.mpr (Or.inr ⟨a, b, c, d, tail, heq, hwider _ hadmits, hlt⟩)
      rw [decode_of_short hhead, decode_of_short hwide]
  | bad bytes hhead =>
      -- The only case in which the wider limit could go on.
      rw [decode_of_bad hhead] at hstopped
      simp at hstopped

/-! ## Encoding -/

/-- A body behind its length. -/
def encodeFrame (body : List UInt8) : List UInt8 :=
  bigEndian body.length ++ body

def encodeAll (bodies : List (List UInt8)) : List UInt8 :=
  bodies.flatMap encodeFrame

@[simp] theorem length_encodeFrame (body : List UInt8) :
    (encodeFrame body).length = 4 + body.length := by
  simp [encodeFrame]

@[simp] theorem encodeAll_nil : encodeAll [] = [] := rfl

@[simp] theorem encodeAll_cons (body : List UInt8) (bodies : List (List UInt8)) :
    encodeAll (body :: bodies) = encodeFrame body ++ encodeAll bodies := rfl

theorem take_four_encodeFrame (body rest : List UInt8) :
    (encodeFrame body ++ rest).take 4 = bigEndian body.length := by
  rw [encodeFrame, List.append_assoc]
  exact List.take_left' rfl

theorem encodeAll_append (xs ys : List (List UInt8)) :
    encodeAll (xs ++ ys) = encodeAll xs ++ encodeAll ys :=
  List.flatMap_append

theorem head_encodeFrame (hadmits : admits body.length = true)
    (hsmall : body.length < 2147483648) (rest : List UInt8) :
    head admits (encodeFrame body ++ rest) = .frame body rest := by
  have hvalue := headerValue_bigEndian hsmall
  refine head_frame_iff.mpr ⟨_, _, _, _, rfl, ?_, ?_⟩
  · rw [hvalue]
    exact hadmits
  · rw [hvalue, Int.toNat_natCast]

/-- A frame whose length is refused, as a signed number. -/
theorem head_encodeFrame_bad (hrefused : admits (wrap32 body.length) = false)
    (hsmall : body.length < 4294967296) (rest : List UInt8) :
    head admits (encodeFrame body ++ rest) = .bad := by
  refine head_bad_iff.mpr ⟨_, _, _, _, body ++ rest, rfl, ?_⟩
  rw [headerValue_bigEndian_wrap hsmall]
  exact hrefused

/-- **The frames of a stream are recovered.** -/
theorem decode_encodeAll {bodies : List (List UInt8)}
    (hadmits : ∀ body ∈ bodies, admits body.length = true ∧ body.length < 2147483648) :
    decode admits (encodeAll bodies) = ⟨bodies, [], false⟩ := by
  induction bodies with
  | nil => exact decode_of_short rfl
  | cons body bodies ih =>
      obtain ⟨hbody, hbodies⟩ := List.forall_mem_cons.mp hadmits
      rw [encodeAll_cons, decode_of_frame (head_encodeFrame hbody.1 hbody.2 _), ih hbodies]

/-- **A stream is the encoding of its frames**, followed by what is left over, if no negative
length is admitted. -/
theorem encodeAll_frames (hnonneg : ∀ len, admits len = true → 0 ≤ len) (bytes : List UInt8) :
    encodeAll (decode admits bytes).frames ++ (decode admits bytes).rest = bytes := by
  induction bytes using frames_induction admits with
  | frame bytes body rest hhead ih =>
      obtain ⟨a, b, c, d, rfl, hadmits, hlength⟩ := head_frame_iff.mp hhead
      have hheader := bigEndian_headerValue (hnonneg _ hadmits)
      rw [decode_of_frame hhead]
      dsimp only
      rw [encodeAll_cons, List.append_assoc, ih, encodeFrame, ← hlength, hheader]
      rfl
  | short bytes hhead => rw [decode_of_short hhead, encodeAll_nil, List.nil_append]
  | bad bytes hhead => rw [decode_of_bad hhead, encodeAll_nil, List.nil_append]

/-- What has arrived of a stream decodes to the first of its frames. -/
theorem decode_arrived {bodies : List (List UInt8)}
    (hadmits : ∀ body ∈ bodies, admits body.length = true ∧ body.length < 2147483648)
    (harrived : bytes <+: encodeAll bodies) :
    (decode admits bytes).stopped = false ∧ (decode admits bytes).frames <+: bodies := by
  obtain ⟨more, hmore⟩ := harrived
  have hall := decode_encodeAll hadmits
  rw [← hmore, decode_append, Decoding.mk.injEq] at hall
  obtain ⟨hframes, -, hfalse⟩ := hall
  exact ⟨stopped_of_append hfalse, _, hframes⟩

/-- The same for frames of any length a header can carry: the decoding ends at the first
length that is refused. -/
theorem frames_arrived {bodies : List (List UInt8)}
    (hnonneg : ∀ len, admits len = true → 0 ≤ len)
    (hsmall : ∀ body ∈ bodies, body.length < 4294967296) (harrived : bytes <+: encodeAll bodies) :
    (decode admits bytes).frames <+: bodies := by
  have hall : (decode admits (encodeAll bodies)).frames <+: bodies := by
    clear harrived
    induction bodies with
    | nil =>
        have hshort : decode admits [] = ⟨[], [], false⟩ := decode_of_short rfl
        simp only [encodeAll_nil, hshort, List.nil_prefix]
    | cons body bodies ih =>
        obtain ⟨hbody, hbodies⟩ := List.forall_mem_cons.mp hsmall
        rw [encodeAll_cons]
        cases hadmits : admits (wrap32 body.length) with
        | false =>
            rw [decode_of_bad (head_encodeFrame_bad hadmits hbody _)]
            exact List.nil_prefix
        | true =>
            have hvalue := wrap32_of_nonneg (by omega) (by omega) (hnonneg _ hadmits)
            have hbounds := wrap32_bounds body.length
            rw [hvalue] at hadmits hbounds
            rw [decode_of_frame (head_encodeFrame hadmits (by omega) _), List.cons_prefix_cons]
            exact ⟨rfl, ih hbodies⟩
  obtain ⟨more, hmore⟩ := harrived
  rw [← hmore, decode_append] at hall
  exact (List.prefix_append _ _).trans hall

end Framing
end Foundation
end StupidP2P
