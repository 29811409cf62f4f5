import Mathlib.Tactic

set_option autoImplicit false

/-!
# The viewport and the recout of a surface

A surface has a source rectangle, which is scaled to its destination rectangle in the source
rectangle of the stream, and the latter is scaled to the destination rectangle of the stream. A clip
rectangle says which part of the surface is to be seen. `calculate_viewport` computes which part of
the source rectangle is read, and `calculate_recout` which part of the destination of the stream is
drawn. Both work on the clip rectangle, each in its own way.

## Main definitions

* `Dc.viewportSpan`, `recoutSpan` — one direction of `calculate_viewport` and `calculate_recout`.
* `Describes` — a span of the target of a scaling is the image of a span of its source, up to one
  pixel.

## Main results

* `Dc.viewportSpan_describes_iff`, `recoutSpan_describes_iff` — when each of them is the image of
  the visible part.
* `buildScalingParams_describes_iff` — when viewport and recout show the same visible part.
* `buildScalingParams_wide` — a surface that begins left of the screen is drawn too wide.

## Design

The members of a rectangle have 32 bits. Positions are signed and sizes are not, and an expression
with both is unsigned. The two directions are computed in the same way, so a rectangle is two spans.
The scaling ratios, which only the function for the taps of the scaler reads, are left to it.
-/

namespace Dc

/-- `struct rect` -/
structure Rect where
  x : BitVec 32
  y : BitVec 32
  width : BitVec 32
  height : BitVec 32
  deriving DecidableEq, Repr

/-- One direction of a rectangle: a signed position and an unsigned size. -/
structure Span where
  pos : BitVec 32
  len : BitVec 32
  deriving DecidableEq, Repr

namespace Span

/-- Where the span begins. -/
def lo (s : Span) : ℤ := s.pos.toInt

/-- The size of the span. -/
def size (s : Span) : ℕ := s.len.toNat

/-- Where the span ends. -/
def hi (s : Span) : ℤ := s.lo + s.size

end Span

namespace Rect

/-- The horizontal direction. -/
def horz (r : Rect) : Span := ⟨r.x, r.width⟩

/-- The vertical direction. -/
def vert (r : Rect) : Span := ⟨r.y, r.height⟩

/-- `rect_swap_helper` -/
def swap (r : Rect) : Rect := ⟨r.y, r.x, r.height, r.width⟩

/-- A rectangle from its directions. -/
def ofSpans (h v : Span) : Rect := ⟨h.pos, v.pos, h.len, v.len⟩

end Rect

/-- The intersection of the source of the stream and the clip in `calculate_viewport`. -/
def clipSpan (stream clip : Span) : Span :=
  let pos := if clip.pos.slt stream.pos then stream.pos else clip.pos
  ⟨pos, if (stream.pos + stream.len).ult (clip.pos + clip.len) then stream.pos + stream.len - pos
    else clip.pos + clip.len - pos⟩

/-- One direction of `calculate_viewport` -/
def viewportSpan (stream src dst clip : Span) : Span :=
  let clip := clipSpan stream clip
  let len := clip.len * src.len / dst.len
  ⟨src.pos + (clip.pos - dst.pos) * src.len / dst.len, if len.ult 2 then 2 else len⟩

/-- One direction of `calculate_recout` -/
def recoutSpan (stream streamDst clip : Span) : Span :=
  let pos :=
    if stream.pos.slt clip.pos then
      streamDst.pos + (clip.pos - stream.pos) * streamDst.len / stream.len
    else streamDst.pos
  let len := clip.len * streamDst.len / stream.len
  ⟨pos, if (streamDst.pos + streamDst.len).ult (len + pos) then
      streamDst.pos + streamDst.len - pos
    else len⟩

/-- `enum dc_rotation_angle` -/
inductive RotationAngle
  | angle0
  | angle90
  | angle180
  | angle270
  deriving DecidableEq, Repr

/-- The rectangles of a surface. -/
structure SurfaceRects where
  srcRect : Rect
  dstRect : Rect
  clipRect : Rect
  rotation : RotationAngle
  deriving DecidableEq, Repr

/-- A rectangle of a surface, with the directions exchanged if the surface is turned. -/
def SurfaceRects.turn (surface : SurfaceRects) (r : Rect) : Rect :=
  if surface.rotation = .angle90 ∨ surface.rotation = .angle270 then r.swap else r

/-- The rectangles of a stream, and the size of its timing. -/
structure StreamRects where
  src : Rect
  dst : Rect
  hAddressable : ℕ
  vAddressable : ℕ
  deriving DecidableEq, Repr

/-- `enum lb_pixel_depth`, as far as it is used -/
inductive LbPixelDepth
  | bpp24
  | bpp30
  deriving DecidableEq, Repr

/-- `struct scaler_data` -/
structure ScalerData where
  viewport : Rect
  recout : Rect
  lbBpp : LbPixelDepth
  hActive : ℕ
  vActive : ℕ
  deriving DecidableEq, Repr

/-- `calculate_viewport` -/
def calculateViewport (surface : SurfaceRects) (stream : StreamRects) : Rect :=
  let src := surface.turn surface.srcRect
  let dst := surface.turn surface.dstRect
  let clip := surface.turn surface.clipRect
  .ofSpans (viewportSpan stream.src.horz src.horz dst.horz clip.horz)
    (viewportSpan stream.src.vert src.vert dst.vert clip.vert)

/-- `calculate_recout` -/
def calculateRecout (surface : SurfaceRects) (stream : StreamRects) : Rect :=
  let clip := surface.turn surface.clipRect
  .ofSpans (recoutSpan stream.src.horz stream.dst.horz clip.horz)
    (recoutSpan stream.src.vert stream.dst.vert clip.vert)

/-- What `resource_build_scaling_params` comes to. -/
inductive ScalingResult
  /-- a division by a size of zero -/
  | divideError
  /-- `false` -/
  | failed
  /-- `true` -/
  | ok (scl : ScalerData)
  deriving DecidableEq, Repr

/-- A rectangle without a width or a height. -/
def Rect.isFlat (r : Rect) : Bool := r.width = 0 || r.height = 0

/-- `resource_build_scaling_params`. `taps` is `transform_get_optimal_number_of_taps`. -/
def buildScalingParams (taps : SurfaceRects → StreamRects → ScalerData → Bool)
    (surface : SurfaceRects) (stream : StreamRects) : ScalingResult :=
  if surface.dstRect.isFlat then .divideError
  else
    let viewport := calculateViewport surface stream
    if viewport.height.ult 16 || viewport.width.ult 16 then .failed
    else if stream.src.isFlat || stream.dst.isFlat then .divideError
    else
      let scl : ScalerData :=
        { viewport := viewport
          recout := calculateRecout surface stream
          lbBpp := .bpp30
          hActive := stream.hAddressable
          vActive := stream.vAddressable }
      if taps surface stream scl then .ok scl
      else if taps surface stream { scl with lbBpp := .bpp24 } then .ok { scl with lbBpp := .bpp24 }
      else .failed

/-! ## What the rectangles should be -/

/-- The span `v` is inside `tgt`, and up to one pixel it is the image of the part from `lo` to `hi`
when `src` is scaled to `tgt`. -/
structure Describes (v : Span) (lo hi : ℤ) (src tgt : Span) : Prop where
  inside : tgt.lo ≤ v.lo ∧ v.hi ≤ tgt.hi
  start : |(v.lo - tgt.lo) * src.size - (lo - src.lo) * tgt.size| < src.size
  size : |(v.size : ℤ) * src.size - (hi - lo) * tgt.size| < src.size

/-- Where the visible part of a surface begins, in the source of the stream. -/
def visibleLo (stream dst clip : Span) : ℤ := max (max stream.lo clip.lo) dst.lo

/-- Where the visible part of a surface ends, in the source of the stream. -/
def visibleHi (stream dst clip : Span) : ℤ := min (min stream.hi clip.hi) dst.hi

/-- In one direction, viewport and recout describe the visible part. -/
def SpanDescribed (viewport recout stream streamDst src dst clip : Span) : Prop :=
  Describes viewport (visibleLo stream dst clip) (visibleHi stream dst clip) dst src ∧
    Describes recout (visibleLo stream dst clip) (visibleHi stream dst clip) stream streamDst

/-- Where the part of the clip in the source of the stream begins. -/
def clipLo (stream clip : Span) : ℤ := max stream.lo clip.lo

/-- Where the part of the clip in the source of the stream ends. -/
def clipHi (stream clip : Span) : ℤ := min stream.hi clip.hi

/-- So many pixels when `src` is scaled to `tgt`, rounded down. -/
def image (n : ℤ) (src tgt : Span) : ℤ := n * tgt.size / src.size

/-- Two ends compare as unsigned words of 32 bits as they do as numbers. -/
def SameOrder (a b : ℤ) : Prop := a % 2 ^ 32 < b % 2 ^ 32 ↔ a < b

instance (a b : ℤ) : Decidable (SameOrder a b) := inferInstanceAs (Decidable (_ ↔ _))

/-- The numbers are not too large for 32 bits: the ends that are compared compare as they should,
and the products do not wrap around. -/
structure NoWrap (stream streamDst src dst clip : Span) : Prop where
  ends : SameOrder stream.hi clip.hi
  before : (dst.lo - clipLo stream clip) * src.size + dst.size ≤ 2 ^ 32
  pixels : (clipHi stream clip - clipLo stream clip) * src.size < 2 ^ 32
  recoutPixels : (clip.size : ℤ) * streamDst.size < 2 ^ 32
  recoutEnds : SameOrder streamDst.hi (streamDst.lo +
    image (clipLo stream clip - stream.lo) stream streamDst + image clip.size stream streamDst)

/-- The part of the clip in the source of the stream is not empty, begins in the destination of the
surface, ends there up to rounding, and is less than a pixel shorter than what is drawn: the clip,
up to the end of the destination of the stream. -/
structure ClipFits (stream streamDst src dst clip : Span) : Prop where
  overlap : clipLo stream clip < clipHi stream clip
  dst_lo : dst.lo ≤ clipLo stream clip
  viewportOffset : (clipLo stream clip - dst.lo) * src.size < 2 ^ 32
  viewport_lo : src.lo + image (clipLo stream clip - dst.lo) dst src < 2 ^ 31
  viewport_hi : image (clipLo stream clip - dst.lo) dst src +
    image (clipHi stream clip - clipLo stream clip) dst src ≤ src.size
  recoutOffset : (clipLo stream clip - stream.lo) * streamDst.size < 2 ^ 32
  recout_lo : streamDst.lo + image (clipLo stream clip - stream.lo) stream streamDst < 2 ^ 31
  recout_hi : min (image clip.size stream streamDst)
      (streamDst.size - image (clipLo stream clip - stream.lo) stream streamDst) * stream.size <
    (visibleHi stream dst clip - clipLo stream clip) * streamDst.size + stream.size

/-! ## Arithmetic with 32 bits -/

section Words

variable (p q l : BitVec 32)

/-- The end of a span. -/
theorem toNat_add_emod : ((p + l).toNat : ℤ) = (p.toInt + l.toNat) % 2 ^ 32 := by
  have hp := p.isLt
  rw [BitVec.toInt_eq_toNat_cond, BitVec.toNat_add]
  split <;> omega

/-- The distance of two positions. -/
theorem toNat_pos_sub_pos {p q : BitVec 32} (h : q.toInt ≤ p.toInt) :
    ((p - q).toNat : ℤ) = p.toInt - q.toInt := by
  have hp := p.isLt
  have hq := q.isLt
  rw [BitVec.toInt_eq_toNat_cond, BitVec.toInt_eq_toNat_cond] at h ⊢
  rw [BitVec.toNat_sub]
  split at h <;> split at h <;> rename_i h₁ h₂ <;> simp only [h₁, h₂, if_true, if_false] <;> omega

/-- The distance of an unsigned number from a position. -/
theorem toNat_sub_emod : ((l - q).toNat : ℤ) = (l.toNat - q.toInt) % 2 ^ 32 := by
  have hq := q.isLt
  have hl := l.isLt
  rw [BitVec.toInt_eq_toNat_cond, BitVec.toNat_sub]
  split <;> omega

/-- A position that is moved wraps around if it comes to `2 ^ 31`. -/
theorem toInt_pos_add : (p + l).toInt =
    if p.toInt + l.toNat < 2 ^ 31 then p.toInt + l.toNat else p.toInt + l.toNat - 2 ^ 32 := by
  have hlow := BitVec.le_toInt p
  have hhigh := @BitVec.toInt_lt 32 p
  have hl := l.isLt
  have hadd := toNat_add_emod p l
  rw [BitVec.toInt_eq_toNat_cond (p + l)]
  split <;> split <;> omega

/-- **A position that is moved by a scaled distance.** It is not before the old one and the scaled
distance is right up to one pixel, if and only if nothing wraps around.

**Proof sketch.** A product that wraps around loses `2 ^ 32`, which is more than the divisor, so
that the quotient is too small by more than one. -/
theorem moved_iff {p x m n : BitVec 32} (hn : 0 < n.toNat) :
    (p.toInt ≤ (p + x * m / n).toInt ∧
        |((p + x * m / n).toInt - p.toInt) * n.toNat - (x.toNat * m.toNat : ℕ)| < n.toNat) ↔
      x.toNat * m.toNat < 2 ^ 32 ∧ p.toInt + (x.toNat * m.toNat / n.toNat : ℕ) < 2 ^ 31 := by
  have hlt := n.isLt
  have hquot : (x * m / n).toNat = x.toNat * m.toNat % 2 ^ 32 / n.toNat := by
    rw [BitVec.toNat_udiv, BitVec.toNat_mul]
  have hadd := toInt_pos_add p (x * m / n)
  have hword := (x * m / n).isLt
  rw [hquot] at hadd hword
  generalize x.toNat * m.toNat = prod at *
  have hdm := Nat.div_add_mod (prod % 2 ^ 32) n.toNat
  have hmod := Nat.mod_lt (prod % 2 ^ 32) hn
  constructor
  · rintro ⟨hle, habs⟩
    generalize hq : prod % 2 ^ 32 / n.toNat = q at hadd hword hdm
    have hmoved : (p + x * m / n).toInt - p.toInt = q := by
      split at hadd <;> omega
    rw [hmoved, abs_lt, mul_comm] at habs
    have hcast : (n.toNat : ℤ) * q + (prod % 2 ^ 32 % n.toNat : ℕ) = (prod % 2 ^ 32 : ℕ) := by
      exact_mod_cast hdm
    have hsmall : prod < 2 ^ 32 := by
      generalize (n.toNat : ℤ) * q = nq at habs hcast
      omega
    rw [Nat.mod_eq_of_lt hsmall] at hq
    refine ⟨hsmall, ?_⟩
    rw [hq]
    split at hadd <;> omega
  · rintro ⟨hsmall, hend⟩
    rw [Nat.mod_eq_of_lt hsmall] at hadd hdm hmod
    rw [if_pos hend] at hadd
    have hcast : (n.toNat : ℤ) * (prod / n.toNat : ℕ) + (prod % n.toNat : ℕ) = prod := by
      exact_mod_cast hdm
    rw [hadd, add_sub_cancel_left, abs_lt, mul_comm]
    generalize (n.toNat : ℤ) * (prod / n.toNat : ℕ) = nq at hcast ⊢
    exact ⟨le_add_of_nonneg_right (Int.natCast_nonneg _), by omega, by omega⟩

/-- Such a position. -/
theorem toInt_moved {p x m n : BitVec 32} (hsmall : x.toNat * m.toNat < 2 ^ 32)
    (hend : p.toInt + (x.toNat * m.toNat / n.toNat : ℕ) < 2 ^ 31) :
    (p + x * m / n).toInt = p.toInt + (x.toNat * m.toNat / n.toNat : ℕ) := by
  have hquot : (x * m / n).toNat = x.toNat * m.toNat / n.toNat := by
    rw [BitVec.toNat_udiv, BitVec.toNat_mul, Nat.mod_eq_of_lt hsmall]
  rw [toInt_pos_add, hquot, if_pos hend]

end Words

/-! ## One direction -/

section Spans

variable {stream streamDst src dst clip : Span}

/-- The end of a span, as the code computes it. -/
theorem toNat_end (s : Span) : ((s.pos + s.len).toNat : ℤ) = s.hi % 2 ^ 32 :=
  toNat_add_emod s.pos s.len

/-- Where the intersection begins. -/
theorem clipSpan_lo : (clipSpan stream clip).lo = clipLo stream clip := by
  rw [clipSpan, clipLo, Span.lo, Span.lo, Span.lo, BitVec.slt_eq_decide]
  by_cases h : clip.pos.toInt < stream.pos.toInt
  · simp only [h, decide_true, if_true]
    omega
  · simp only [h, decide_false, Bool.false_eq_true, if_false]
    omega

/-- The size of the intersection. -/
theorem clipSpan_size (hends : SameOrder stream.hi clip.hi)
    (hle : clipLo stream clip ≤ clipHi stream clip) :
    ((clipSpan stream clip).size : ℤ) = clipHi stream clip - clipLo stream clip := by
  have hpos : (clipSpan stream clip).pos.toInt = clipLo stream clip := clipSpan_lo
  have hsend := toNat_end stream
  have hcend := toNat_end clip
  have hstream : stream.hi = stream.lo + stream.size := rfl
  have hlen : stream.size < 2 ^ 32 := stream.len.isLt
  have hlen' : (clipSpan stream clip).len =
      (if (stream.pos + stream.len).ult (clip.pos + clip.len) then stream.pos + stream.len
        else clip.pos + clip.len) - (clipSpan stream clip).pos := by
    simp only [clipSpan]
    split <;> rfl
  rw [SameOrder] at hends
  rw [Span.size, hlen', toNat_sub_emod, hpos]
  simp only [clipLo, clipHi] at hle ⊢
  by_cases hless : (stream.pos + stream.len).ult (clip.pos + clip.len) = true
  · rw [if_pos hless, hsend]
    rw [BitVec.ult, decide_eq_true_eq] at hless
    omega
  · rw [if_neg hless, hcend]
    rw [BitVec.ult, decide_eq_true_eq] at hless
    omega

/-- The size of the viewport, if it is not raised to the least size. -/
theorem viewportSpan_size (h : NoWrap stream streamDst src dst clip)
    (hle : clipLo stream clip ≤ clipHi stream clip)
    (hmin : 2 < (viewportSpan stream src dst clip).size) :
    ((viewportSpan stream src dst clip).size : ℤ) =
      image (clipHi stream clip - clipLo stream clip) dst src := by
  have hpixels := h.pixels
  rw [← clipSpan_size h.ends hle] at hpixels ⊢
  have hlen : ((clipSpan stream clip).len * src.len / dst.len).toNat =
      (clipSpan stream clip).size * src.size / dst.size := by
    rw [BitVec.toNat_udiv, BitVec.toNat_mul, Nat.mod_eq_of_lt]
    · rfl
    · exact_mod_cast hpixels
  have hsize : (viewportSpan stream src dst clip).size =
      (clipSpan stream clip).size * src.size / dst.size := by
    simp only [viewportSpan, Span.size] at hmin ⊢
    split at hmin
    · exact absurd hmin (by decide)
    · rename_i hult
      rw [if_neg hult]
      exact hlen
  rw [hsize, image]
  push_cast
  rfl

/-- The distance of the clip from a span that begins before it. -/
theorem clipSpan_sub {s : Span} (hle : s.lo ≤ clipLo stream clip) :
    (((clipSpan stream clip).pos - s.pos).toNat : ℤ) = clipLo stream clip - s.lo := by
  have hpos : (clipSpan stream clip).pos.toInt = clipLo stream clip := clipSpan_lo
  rw [toNat_pos_sub_pos (by rw [hpos]; exact hle), hpos, Span.lo]

/-- The recout begins at the image of the beginning of the clip. -/
theorem recoutSpan_pos : (recoutSpan stream streamDst clip).pos =
    streamDst.pos + ((clipSpan stream clip).pos - stream.pos) * streamDst.len / stream.len := by
  simp only [recoutSpan, clipSpan, BitVec.slt_eq_decide]
  by_cases hslt : stream.pos.toInt < clip.pos.toInt
  · simp [hslt, hslt.not_gt]
  · have hpos : (if clip.pos.toInt < stream.pos.toInt then stream.pos else clip.pos) =
        stream.pos := by
      split_ifs with hlt
      · rfl
      · exact BitVec.eq_of_toInt_eq (le_antisymm (not_lt.mp hslt) (not_lt.mp hlt))
    simp [hslt, hpos]

/-- **Where a span begins** that is moved by the image of the distance of the clip from `s`. -/
theorem clip_moved_iff {s tgt v : Span} (hpos : 0 < s.size) (hle : s.lo ≤ clipLo stream clip)
    (hv : v.pos = tgt.pos + ((clipSpan stream clip).pos - s.pos) * tgt.len / s.len) :
    (tgt.lo ≤ v.lo ∧
        |(v.lo - tgt.lo) * s.size - (clipLo stream clip - s.lo) * tgt.size| < s.size) ↔
      (clipLo stream clip - s.lo) * tgt.size < 2 ^ 32 ∧
        tgt.lo + image (clipLo stream clip - s.lo) s tgt < 2 ^ 31 := by
  have hsub := clipSpan_sub hle
  have hmoved := @moved_iff tgt.pos ((clipSpan stream clip).pos - s.pos) tgt.len s.len hpos
  rw [← hv] at hmoved
  rw [← hsub, image]
  have hsmall : (((clipSpan stream clip).pos - s.pos).toNat * tgt.len.toNat : ℕ) < 2 ^ 32 ↔
      ((((clipSpan stream clip).pos - s.pos).toNat : ℤ) * tgt.size) < 2 ^ 32 := by
    rw [Span.size]
    exact_mod_cast Iff.rfl
  rw [hsmall] at hmoved
  push_cast at hmoved
  exact hmoved

/-- Such a beginning. -/
theorem lo_of_clip_moved {s tgt v : Span} (hle : s.lo ≤ clipLo stream clip)
    (hv : v.pos = tgt.pos + ((clipSpan stream clip).pos - s.pos) * tgt.len / s.len)
    (hsmall : (clipLo stream clip - s.lo) * tgt.size < 2 ^ 32)
    (hend : tgt.lo + image (clipLo stream clip - s.lo) s tgt < 2 ^ 31) :
    v.lo = tgt.lo + image (clipLo stream clip - s.lo) s tgt := by
  rw [← clipSpan_sub hle] at hsmall hend ⊢
  rw [image] at hend ⊢
  have hmoved := @toInt_moved tgt.pos ((clipSpan stream clip).pos - s.pos) tgt.len s.len
    (by exact_mod_cast hsmall) (by exact_mod_cast hend)
  rw [Span.lo, hv, hmoved]
  push_cast
  rfl

/-- **A span that begins where the clip is moved to** describes a part that begins with the clip if
and only if its position does not wrap around, it ends in the target, and its size is right. -/
theorem describes_moved_iff {s tgt v : Span} {hi : ℤ} (hpos : 0 < s.size)
    (hle : s.lo ≤ clipLo stream clip)
    (hv : v.pos = tgt.pos + ((clipSpan stream clip).pos - s.pos) * tgt.len / s.len) :
    Describes v (clipLo stream clip) hi s tgt ↔
      ((clipLo stream clip - s.lo) * tgt.size < 2 ^ 32 ∧
        tgt.lo + image (clipLo stream clip - s.lo) s tgt < 2 ^ 31) ∧
      image (clipLo stream clip - s.lo) s tgt + v.size ≤ tgt.size ∧
      |(v.size : ℤ) * s.size - (hi - clipLo stream clip) * tgt.size| < s.size := by
  have hmoved := clip_moved_iff hpos hle hv
  have hlo := lo_of_clip_moved hle hv
  have hvhi : v.hi = v.lo + v.size := rfl
  have hthi : tgt.hi = tgt.lo + tgt.size := rfl
  constructor
  · rintro ⟨⟨hinlo, hinhi⟩, hstart, hsize⟩
    obtain ⟨hsmall, hend⟩ := hmoved.mp ⟨hinlo, hstart⟩
    have hlo := hlo hsmall hend
    exact ⟨⟨hsmall, hend⟩, by omega, hsize⟩
  · rintro ⟨⟨hsmall, hend⟩, hin, hsize⟩
    have hlo := hlo hsmall hend
    obtain ⟨hinlo, hstart⟩ := hmoved.mpr ⟨hsmall, hend⟩
    exact ⟨⟨hinlo, by omega⟩, hstart, hsize⟩

/-- The size of the recout: it is cut at the end of the destination. -/
theorem recoutSpan_size (h : NoWrap stream streamDst src dst clip)
    (hlo : (recoutSpan stream streamDst clip).lo =
      streamDst.lo + image (clipLo stream clip - stream.lo) stream streamDst)
    (hle : image (clipLo stream clip - stream.lo) stream streamDst ≤ streamDst.size)
    (hnonneg : 0 ≤ image (clipLo stream clip - stream.lo) stream streamDst) :
    ((recoutSpan stream streamDst clip).size : ℤ) = min (image clip.size stream streamDst)
      (streamDst.size - image (clipLo stream clip - stream.lo) stream streamDst) := by
  have hends := h.recoutEnds
  rw [SameOrder] at hends
  generalize image (clipLo stream clip - stream.lo) stream streamDst = q at *
  have hlen : ((clip.len * streamDst.len / stream.len).toNat : ℤ) =
      image clip.size stream streamDst := by
    rw [BitVec.toNat_udiv, BitVec.toNat_mul, Nat.mod_eq_of_lt (by exact_mod_cast h.recoutPixels),
      image]
    push_cast
    rfl
  have htend := toNat_end streamDst
  have htsize : streamDst.size < 2 ^ 32 := streamDst.len.isLt
  have hthi : streamDst.hi = streamDst.lo + streamDst.size := rfl
  obtain ⟨pos, hpos⟩ : ∃ pos, (recoutSpan stream streamDst clip).pos = pos := ⟨_, rfl⟩
  have hposInt : pos.toInt = streamDst.lo + q := by rw [← hpos, ← hlo, Span.lo]
  have hsum := toNat_add_emod pos (clip.len * streamDst.len / stream.len)
  have hrest := toNat_sub_emod pos (streamDst.pos + streamDst.len)
  rw [hlen, hposInt, BitVec.add_comm] at hsum
  rw [htend, hposInt] at hrest
  have hsize : (recoutSpan stream streamDst clip).len =
      if (streamDst.pos + streamDst.len).ult (clip.len * streamDst.len / stream.len + pos) then
        streamDst.pos + streamDst.len - pos
      else clip.len * streamDst.len / stream.len := by
    rw [← hpos]
    rfl
  rw [Span.size, hsize, BitVec.ult]
  by_cases hcut : (streamDst.pos + streamDst.len).toNat <
      (clip.len * streamDst.len / stream.len + pos).toNat
  · rw [if_pos (by simpa using hcut), hrest]
    omega
  · rw [if_neg (by simpa using hcut), hlen]
    omega

/-- A rounded image is between zero and the whole. -/
theorem image_bounds {n : ℤ} {s tgt : Span} (hpos : 0 < s.size) (hlow : 0 ≤ n) (hle : n ≤ s.size) :
    0 ≤ image n s tgt ∧ image n s tgt ≤ tgt.size := by
  have hs : (0 : ℤ) < s.size := by exact_mod_cast hpos
  refine ⟨Int.ediv_nonneg (mul_nonneg hlow (Int.natCast_nonneg _)) hs.le, ?_⟩
  refine Int.ediv_le_of_le_mul hs ?_
  rw [mul_comm (tgt.size : ℤ)]
  exact mul_le_mul_of_nonneg_right hle (Int.natCast_nonneg _)

/-- A product, its rounded image and what is lost. -/
theorem image_spec (n : ℤ) {s : Span} (tgt : Span) (hpos : 0 < s.size) :
    image n s tgt * s.size ≤ n * tgt.size ∧ n * tgt.size < image n s tgt * s.size + s.size := by
  have hs : (0 : ℤ) < s.size := by exact_mod_cast hpos
  have hdm := Int.ediv_mul_add_emod (n * tgt.size) s.size
  have hnonneg := Int.emod_nonneg (n * tgt.size) hs.ne'
  have hlt := Int.emod_lt_of_pos (n * tgt.size) hs
  rw [image]
  omega

/-- **The viewport** of a clip that begins in the destination describes the visible part if and only
if the position does not wrap around and the viewport ends in the source.

**Proof sketch.** If the clip ends in the destination, the rounded offset and size never come to
more than the source. If it ends behind, the visible part ends with the destination, whose image is
not rounded, so that the size is right up to one pixel exactly if the viewport ends in the
source. -/
theorem viewportSpan_describes_iff (h : NoWrap stream streamDst src dst clip) (hdst : 0 < dst.size)
    (hmin : 2 < (viewportSpan stream src dst clip).size)
    (hle : clipLo stream clip ≤ clipHi stream clip) (hdlo : dst.lo ≤ clipLo stream clip) :
    Describes (viewportSpan stream src dst clip) (visibleLo stream dst clip)
        (visibleHi stream dst clip) dst src ↔
      ((clipLo stream clip - dst.lo) * src.size < 2 ^ 32 ∧
        src.lo + image (clipLo stream clip - dst.lo) dst src < 2 ^ 31) ∧
      image (clipLo stream clip - dst.lo) dst src +
        image (clipHi stream clip - clipLo stream clip) dst src ≤ src.size := by
  have hlo : visibleLo stream dst clip = clipLo stream clip := max_eq_left hdlo
  have hmoved : (viewportSpan stream src dst clip).pos =
    src.pos + ((clipSpan stream clip).pos - dst.pos) * src.len / dst.len := rfl
  rw [hlo, describes_moved_iff hdst hdlo hmoved, viewportSpan_size h hle hmin]
  refine and_congr_right fun _ => and_iff_left_of_imp fun hsum => ?_
  obtain ⟨-, hq⟩ := image_spec (clipLo stream clip - dst.lo) src hdst
  obtain ⟨hl, hl'⟩ := image_spec (clipHi stream clip - clipLo stream clip) src hdst
  have hsrc : (0 : ℤ) ≤ src.size := Int.natCast_nonneg _
  have hvis : visibleHi stream dst clip = min (clipHi stream clip) dst.hi := rfl
  have hdhi : dst.hi = dst.lo + dst.size := rfl
  rw [abs_lt]
  constructor
  · have hmono : (visibleHi stream dst clip - clipLo stream clip) * src.size ≤
        (clipHi stream clip - clipLo stream clip) * src.size :=
      mul_le_mul_of_nonneg_right (by omega) hsrc
    omega
  · rcases le_total (clipHi stream clip) dst.hi with hcase | hcase
    · rw [hvis, min_eq_left hcase]
      omega
    · -- the destination ends first: `(dst.hi - L) * src` is the whole source less the offset
      rw [hvis, min_eq_right hcase]
      have hsum' : (image (clipLo stream clip - dst.lo) dst src +
          image (clipHi stream clip - clipLo stream clip) dst src) * dst.size ≤
            src.size * dst.size := mul_le_mul_of_nonneg_right hsum (Int.natCast_nonneg _)
      have hwhole : (dst.hi - clipLo stream clip) * src.size =
          src.size * dst.size - (clipLo stream clip - dst.lo) * src.size := by
        rw [hdhi]
        ring
      rw [add_mul] at hsum'
      omega

/-- **The recout** of a clip that begins in the destination of the surface describes the visible
part if and only if the position does not wrap around and the recout is less than a pixel too
large.

**Proof sketch.** The recout is cut at the end of the destination of the stream and is never too
small, since both the clip and what is left of the source of the stream contain the visible part. -/
theorem recoutSpan_describes_iff (h : NoWrap stream streamDst src dst clip)
    (hstream : 0 < stream.size) (hle : clipLo stream clip ≤ clipHi stream clip)
    (hdlo : dst.lo ≤ clipLo stream clip) :
    Describes (recoutSpan stream streamDst clip) (visibleLo stream dst clip)
        (visibleHi stream dst clip) stream streamDst ↔
      ((clipLo stream clip - stream.lo) * streamDst.size < 2 ^ 32 ∧
        streamDst.lo + image (clipLo stream clip - stream.lo) stream streamDst < 2 ^ 31) ∧
      min (image clip.size stream streamDst)
          (streamDst.size - image (clipLo stream clip - stream.lo) stream streamDst) *
            stream.size <
        (visibleHi stream dst clip - clipLo stream clip) * streamDst.size + stream.size := by
  have hslo : stream.lo ≤ clipLo stream clip := le_max_left _ _
  have hlo : visibleLo stream dst clip = clipLo stream clip := max_eq_left hdlo
  have hshi : stream.hi = stream.lo + stream.size := rfl
  have hchi : clip.hi = clip.lo + clip.size := rfl
  have hH : clipHi stream clip = min stream.hi clip.hi := rfl
  have hL : clipLo stream clip = max stream.lo clip.lo := rfl
  have hvis : visibleHi stream dst clip = min (clipHi stream clip) dst.hi := rfl
  obtain ⟨hnonneg, htotal⟩ := @image_bounds (clipLo stream clip - stream.lo) stream streamDst
    hstream (by omega) (by omega)
  rw [hlo, describes_moved_iff hstream hslo (@recoutSpan_pos stream streamDst clip)]
  refine and_congr_right fun hfits => ?_
  rw [recoutSpan_size h (lo_of_clip_moved hslo recoutSpan_pos hfits.1 hfits.2) htotal hnonneg,
    abs_lt]
  refine ⟨fun hsize => by omega, fun hupper => ⟨by omega, ?_, by omega⟩⟩
  have htgt : (0 : ℤ) ≤ streamDst.size := Int.natCast_nonneg _
  obtain ⟨hq, -⟩ := image_spec (clipLo stream clip - stream.lo) streamDst hstream
  obtain ⟨-, hc⟩ := image_spec clip.size streamDst hstream
  rcases min_choice (image clip.size stream streamDst)
    (streamDst.size - image (clipLo stream clip - stream.lo) stream streamDst) with hmin | hmin
  · have hmono : (visibleHi stream dst clip - clipLo stream clip) * streamDst.size ≤
        (clip.size : ℤ) * streamDst.size := mul_le_mul_of_nonneg_right (by omega) htgt
    rw [hmin]
    omega
  · have hmono : (visibleHi stream dst clip - clipLo stream clip) * streamDst.size ≤
        (stream.size - (clipLo stream clip - stream.lo)) * streamDst.size :=
      mul_le_mul_of_nonneg_right (by omega) htgt
    rw [sub_mul (stream.size : ℤ), mul_comm (stream.size : ℤ)] at hmono
    rw [hmin, sub_mul]
    omega

/-- A span of more than two pixels describes a part that has pixels. -/
theorem pos_of_describes {v s tgt : Span} {lo hi : ℤ} (hpos : 0 < s.size) (hmin : 2 < v.size)
    (hdesc : Describes v lo hi s tgt) : lo < hi ∧ 0 < tgt.size := by
  have hsize := (abs_lt.mp hdesc.size).2
  have hthree : 3 * (s.size : ℤ) ≤ v.size * s.size :=
    mul_le_mul_of_nonneg_right (by exact_mod_cast hmin) (Int.natCast_nonneg _)
  have hprod : 0 < (hi - lo) * tgt.size := by omega
  have htgt : (0 : ℤ) < tgt.size := by
    rcases (Int.natCast_nonneg tgt.size).eq_or_lt with hzero | htgt
    · rw [← hzero, mul_zero] at hprod
      exact absurd hprod (lt_irrefl 0)
    · exact htgt
  exact ⟨sub_pos.mp (pos_of_mul_pos_left hprod htgt.le), by exact_mod_cast htgt⟩

/-- The viewport of a clip that begins before the destination does not begin with the source.

**Proof sketch.** The distance is negative, and as a word it is so large that it is not rounded to
zero. -/
theorem viewportSpan_lo_ne (h : NoWrap stream streamDst src dst clip) (hdst : 0 < dst.size)
    (hsrc : 0 < src.size) (hlt : clipLo stream clip < dst.lo) :
    (viewportSpan stream src dst clip).lo ≠ src.lo := by
  have hpos : (clipSpan stream clip).pos.toInt = clipLo stream clip := clipSpan_lo
  have hvlo : (viewportSpan stream src dst clip).lo =
    (src.pos + ((clipSpan stream clip).pos - dst.pos) * src.len / dst.len).toInt := rfl
  generalize (clipSpan stream clip).pos = w at *
  obtain ⟨D, hD⟩ := Int.eq_ofNat_of_zero_le (show 0 ≤ dst.lo - clipLo stream clip by omega)
  have hsub : (dst.pos - w).toNat = D := by
    have hsub := toNat_pos_sub_pos (show w.toInt ≤ dst.pos.toInt by rw [hpos]; exact hlt.le)
    rw [hpos, ← Span.lo, hD] at hsub
    exact_mod_cast hsub
  have hbefore : D * src.size + dst.size ≤ 2 ^ 32 := by
    have hbefore := h.before
    rw [hD] at hbefore
    exact_mod_cast hbefore
  have hprod : 0 < D * src.size := Nat.mul_pos (by omega) hsrc
  have hword : ((w - dst.pos) * src.len).toNat = 2 ^ 32 - D * src.size := by
    rw [show w - dst.pos = -(dst.pos - w) by bv_omega, BitVec.neg_mul, BitVec.toNat_neg,
      BitVec.toNat_mul, hsub, ← Span.size, Nat.mod_eq_of_lt (by omega), Nat.mod_eq_of_lt (by omega)]
  have hquot : 1 ≤ ((w - dst.pos) * src.len / dst.len).toNat := by
    rw [BitVec.toNat_udiv, hword]
    exact (Nat.one_le_div_iff hdst).mpr (by omega)
  have hadd := toInt_pos_add src.pos ((w - dst.pos) * src.len / dst.len)
  have hisLt := ((w - dst.pos) * src.len / dst.len).isLt
  rw [hvlo, hadd, Span.lo]
  split_ifs <;> omega

/-- **A clip that is described** is not empty, and begins in the destination of the surface:
otherwise the viewport would have to begin with the source. -/
theorem overlap_of_describes (h : NoWrap stream streamDst src dst clip) (hdst : 0 < dst.size)
    (hmin : 2 < (viewportSpan stream src dst clip).size)
    (hdesc : Describes (viewportSpan stream src dst clip) (visibleLo stream dst clip)
      (visibleHi stream dst clip) dst src) :
    clipLo stream clip < clipHi stream clip ∧ dst.lo ≤ clipLo stream clip := by
  obtain ⟨hvis, hsrc⟩ := pos_of_describes hdst hmin hdesc
  have hlo : visibleLo stream dst clip = max (clipLo stream clip) dst.lo := rfl
  have hhi : visibleHi stream dst clip = min (clipHi stream clip) dst.hi := rfl
  refine ⟨by omega, ?_⟩
  by_contra hlt
  have hlt := not_le.mp hlt
  refine viewportSpan_lo_ne h hdst hsrc hlt ?_
  have hstart := hdesc.start
  rw [hlo, max_eq_right hlt.le, sub_self, zero_mul, sub_zero, abs_mul, Nat.abs_cast] at hstart
  have hone := lt_of_mul_lt_mul_right (hstart.trans_eq (one_mul _).symm) (Int.natCast_nonneg _)
  exact sub_eq_zero.mp (Int.abs_lt_one_iff.mp hone)

/-- **One direction**: viewport and recout describe the visible part if and only if the clip
fits. -/
theorem spanDescribed_iff (h : NoWrap stream streamDst src dst clip) (hdst : 0 < dst.size)
    (hstream : 0 < stream.size) (hmin : 2 < (viewportSpan stream src dst clip).size) :
    SpanDescribed (viewportSpan stream src dst clip) (recoutSpan stream streamDst clip) stream
      streamDst src dst clip ↔ ClipFits stream streamDst src dst clip := by
  constructor
  · rintro ⟨hview, hrec⟩
    obtain ⟨hoverlap, hdlo⟩ := overlap_of_describes h hdst hmin hview
    obtain ⟨⟨hvoff, hvlo⟩, hvhi⟩ :=
      (viewportSpan_describes_iff h hdst hmin hoverlap.le hdlo).mp hview
    obtain ⟨⟨hroff, hrlo⟩, hrhi⟩ := (recoutSpan_describes_iff h hstream hoverlap.le hdlo).mp hrec
    exact ⟨hoverlap, hdlo, hvoff, hvlo, hvhi, hroff, hrlo, hrhi⟩
  · rintro ⟨hoverlap, hdlo, hvoff, hvlo, hvhi, hroff, hrlo, hrhi⟩
    exact ⟨(viewportSpan_describes_iff h hdst hmin hoverlap.le hdlo).mpr ⟨⟨hvoff, hvlo⟩, hvhi⟩,
      (recoutSpan_describes_iff h hstream hoverlap.le hdlo).mpr ⟨⟨hroff, hrlo⟩, hrhi⟩⟩

end Spans

/-! ## Both directions -/

/-- Viewport and recout describe the visible part of the surface. -/
def Described (surface : SurfaceRects) (stream : StreamRects) (scl : ScalerData) : Prop :=
  SpanDescribed scl.viewport.horz scl.recout.horz stream.src.horz stream.dst.horz
      (surface.turn surface.srcRect).horz (surface.turn surface.dstRect).horz
      (surface.turn surface.clipRect).horz ∧
    SpanDescribed scl.viewport.vert scl.recout.vert stream.src.vert stream.dst.vert
      (surface.turn surface.srcRect).vert (surface.turn surface.dstRect).vert
      (surface.turn surface.clipRect).vert

/-- The numbers are not too large, in both directions. -/
def RectsNoWrap (surface : SurfaceRects) (stream : StreamRects) : Prop :=
  NoWrap stream.src.horz stream.dst.horz (surface.turn surface.srcRect).horz
      (surface.turn surface.dstRect).horz (surface.turn surface.clipRect).horz ∧
    NoWrap stream.src.vert stream.dst.vert (surface.turn surface.srcRect).vert
      (surface.turn surface.dstRect).vert (surface.turn surface.clipRect).vert

/-- The clip fits, in both directions. -/
def RectsFit (surface : SurfaceRects) (stream : StreamRects) : Prop :=
  ClipFits stream.src.horz stream.dst.horz (surface.turn surface.srcRect).horz
      (surface.turn surface.dstRect).horz (surface.turn surface.clipRect).horz ∧
    ClipFits stream.src.vert stream.dst.vert (surface.turn surface.srcRect).vert
      (surface.turn surface.dstRect).vert (surface.turn surface.clipRect).vert

/-- What a successful call has checked and returns. -/
theorem buildScalingParams_ok {taps : SurfaceRects → StreamRects → ScalerData → Bool}
    {surface : SurfaceRects} {stream : StreamRects} {scl : ScalerData}
    (hok : buildScalingParams taps surface stream = .ok scl) :
    surface.dstRect.isFlat = false ∧ stream.src.isFlat = false ∧
      (¬ scl.viewport.height.ult 16 ∧ ¬ scl.viewport.width.ult 16) ∧
      scl.viewport = calculateViewport surface stream ∧
      scl.recout = calculateRecout surface stream := by
  unfold buildScalingParams at hok
  split at hok
  · cases hok
  rename_i hdst
  dsimp only at hok
  split at hok
  · cases hok
  rename_i hmin
  split at hok
  · cases hok
  rename_i hflat
  rw [Bool.or_eq_true, not_or] at hmin hflat
  refine ⟨Bool.eq_false_iff.mpr hdst, Bool.eq_false_iff.mpr hflat.1, ?_⟩
  split at hok
  · cases hok
    exact ⟨hmin, rfl, rfl⟩
  · split at hok
    · cases hok
      exact ⟨hmin, rfl, rfl⟩
    · cases hok

/-- A rectangle that is not flat has sizes. -/
theorem Rect.size_pos {r : Rect} (h : r.isFlat = false) : 0 < r.horz.size ∧ 0 < r.vert.size := by
  rw [isFlat, Bool.or_eq_false_iff, decide_eq_false_iff_not, decide_eq_false_iff_not] at h
  have hpos : ∀ w : BitVec 32, w ≠ 0 → 0 < w.toNat := fun w hw =>
    Nat.pos_of_ne_zero fun hzero => hw (BitVec.eq_of_toNat_eq hzero)
  exact ⟨hpos _ h.1, hpos _ h.2⟩

/-- A flat rectangle stays flat. -/
theorem SurfaceRects.turn_isFlat (surface : SurfaceRects) (r : Rect) :
    (surface.turn r).isFlat = r.isFlat := by
  rw [turn]
  split
  · exact Bool.or_comm _ _
  · rfl

/-- **When viewport and recout show the same visible part.** Let `resource_build_scaling_params`
succeed with numbers that are not too large. Viewport and recout are inside the rectangles that they
are parts of, and are the images of the visible part up to one pixel, if and only if in both
directions the clip fits. -/
theorem buildScalingParams_describes_iff {taps : SurfaceRects → StreamRects → ScalerData → Bool}
    {surface : SurfaceRects} {stream : StreamRects} {scl : ScalerData}
    (hok : buildScalingParams taps surface stream = .ok scl)
    (hwrap : RectsNoWrap surface stream) :
    Described surface stream scl ↔ RectsFit surface stream := by
  obtain ⟨hdst, hsrc, ⟨hheight, hwidth⟩, hview, hrec⟩ := buildScalingParams_ok hok
  rw [← surface.turn_isFlat] at hdst
  obtain ⟨hdx, hdy⟩ := Rect.size_pos hdst
  obtain ⟨hsx, hsy⟩ := Rect.size_pos hsrc
  have hmin : ∀ w : BitVec 32, ¬ w.ult 16 → 2 < w.toNat := by
    intro w hw
    have hle : 16 ≤ w.toNat := by simpa [BitVec.ult] using hw
    omega
  have hvx := hmin _ hwidth
  have hvy := hmin _ hheight
  rw [hview] at hvx hvy
  rw [Described, hview, hrec]
  exact and_congr (spanDescribed_iff hwrap.1 hdx hsx hvx) (spanDescribed_iff hwrap.2 hdy hsy hvy)

/-- A stream that is drawn in half its size, at a position left of zero. -/
def halvedStream : StreamRects := ⟨⟨-10, 0, 1920, 1080⟩, ⟨0, 0, 960, 540⟩, 960, 540⟩

/-- A surface that is drawn in twice its size, with a clip that is one pixel too long. -/
def doubledSurface : SurfaceRects :=
  ⟨⟨0, 0, 500, 400⟩, ⟨90, 50, 1000, 800⟩, ⟨90, 50, 1001, 800⟩, .angle0⟩

/-- What is too long is lost when the clip is scaled. -/
theorem buildScalingParams_describes_iff_doubled :
    Described doubledSurface halvedStream
      ⟨⟨0, 0, 500, 400⟩, ⟨50, 25, 500, 400⟩, .bpp30, 960, 540⟩ := by
  have hok : buildScalingParams (fun _ _ _ => true) doubledSurface halvedStream =
      .ok ⟨⟨0, 0, 500, 400⟩, ⟨50, 25, 500, 400⟩, .bpp30, 960, 540⟩ := by decide
  have hwrap : RectsNoWrap doubledSurface halvedStream := by
    constructor <;> constructor <;> decide
  have hfits : RectsFit doubledSurface halvedStream := by
    constructor <;> constructor <;> decide
  exact (buildScalingParams_describes_iff hok hwrap).mpr hfits

/-- A stream of 1920 by 1080 pixels that is not scaled. -/
def unscaledStream : StreamRects := ⟨⟨0, 0, 1920, 1080⟩, ⟨0, 0, 1920, 1080⟩, 1920, 1080⟩

/-- A surface of the size of the stream that begins at `x`. -/
def surfaceAt (x : BitVec 32) : SurfaceRects :=
  ⟨⟨0, 0, 1920, 1080⟩, ⟨x, 0, 1920, 1080⟩, ⟨x, 0, 1920, 1080⟩, .angle0⟩

/-- **A surface that begins left of the screen is drawn too wide.** It begins 100 pixels left of the
screen, so 1820 columns of it are visible and are read. They are drawn on all 1920 columns. -/
theorem buildScalingParams_wide :
    buildScalingParams (fun _ _ _ => true) (surfaceAt (-100)) unscaledStream =
        .ok ⟨⟨100, 0, 1820, 1080⟩, ⟨0, 0, 1920, 1080⟩, .bpp30, 1920, 1080⟩ ∧
      RectsNoWrap (surfaceAt (-100)) unscaledStream ∧
      ¬ Described (surfaceAt (-100)) unscaledStream
        ⟨⟨100, 0, 1820, 1080⟩, ⟨0, 0, 1920, 1080⟩, .bpp30, 1920, 1080⟩ := by
  refine ⟨by decide, ?_, fun h => ?_⟩
  · constructor <;> constructor <;> decide
  · exact absurd h.1.2.size (by decide)

end Dc
