import AmdgpuPro.Lib.Wrap
import AmdgpuPro.Uvd.Session

set_option autoImplicit false

/-!
# Buffer sizes of UVD decode messages

`amdgpu_uvd_cs_msg_decode` computes the sizes of the buffers of a frame from the dimensions in a
decode message. All numbers are unsigned and of 32 bits. Here are the formulas of the codecs over
natural numbers, and when the driver computes the same.

## Main definitions

* `Amdgpu.uvdExactSizes` — the sizes of the frame of a message, as natural numbers.
* `UvdSizesSuffice` — the sizes that were accepted are at least that.
* `UvdSizesFit` — no number in the formulas is too large for 32 bits.

## Main results

* `Amdgpu.h264Sizes_track`, `vc1Sizes_track`, `mpeg2Sizes_track`, `mpeg4Sizes_track`,
  `h265Sizes_track` — the codecs.
* `uvd_decode_sizes_iff` — a message.

## Design

The image size of H.265 is half of a product; all other numbers are not larger than the results
they are part of. The number of reference pictures of H.264 is a quotient by the macroblocks of a
frame, which are fewer than its pixels.
-/

namespace Amdgpu

/-! ## Formulas -/

/-- The sizes of a frame. -/
structure UvdExactSizes where
  imageSize : ℕ
  /-- the largest number in the formula of the image size -/
  imagePeak : ℕ
  minDpbSize : ℕ
  /-- `none` where the codec needs no context buffer -/
  minCtxSize : Option ℕ

/-- The image size of the codecs before H.265. -/
def uvdExactImageSize (width height : ℕ) : ℕ :=
  Align.up 1024 (width * height + width * height / 2)

/-- The macroblocks of a frame. -/
def uvdExactFsInMb (width height : ℕ) : ℕ := width / 16 * Align.up 2 (height / 16)

/-- The reference pictures of H.264. -/
def h264ExactNumDpbBuffer (level : BitVec 32) (fsInMb : ℕ) : ℕ :=
  min ((h264LevelMbs level).toNat / fsInMb + 1) 17

/-- The sizes of H.264. -/
def h264ExactSizes (ctxBuf : Bool) (level : BitVec 32) (width height : ℕ) : UvdExactSizes :=
  let imageSize := uvdExactImageSize width height
  let fsInMb := uvdExactFsInMb width height
  let numDpbBuffer := h264ExactNumDpbBuffer level fsInMb
  if ctxBuf then
    ⟨imageSize, imageSize, imageSize * numDpbBuffer, some (fsInMb * numDpbBuffer * 192)⟩
  else
    ⟨imageSize, imageSize, imageSize * numDpbBuffer + fsInMb * numDpbBuffer * 192 + fsInMb * 32,
      none⟩

/-- The sizes of VC-1. -/
def vc1ExactSizes (width height : ℕ) : UvdExactSizes :=
  let imageSize := uvdExactImageSize width height
  ⟨imageSize, imageSize, imageSize * 3 + uvdExactFsInMb width height * 128 + width / 16 * 64 +
    width / 16 * 128 + Align.up 64 (max (width / 16) (Align.up 2 (height / 16)) * 7 * 16), none⟩

/-- The sizes of MPEG-2. -/
def mpeg2ExactSizes (width height : ℕ) : UvdExactSizes :=
  let imageSize := uvdExactImageSize width height
  ⟨imageSize, imageSize, imageSize * 3, none⟩

/-- The sizes of MPEG-4. -/
def mpeg4ExactSizes (width height : ℕ) : UvdExactSizes :=
  let imageSize := uvdExactImageSize width height
  let fsInMb := uvdExactFsInMb width height
  ⟨imageSize, imageSize, imageSize * 3 + fsInMb * 64 + Align.up 64 (fsInMb * 32), none⟩

/-- The sizes of H.265 for `numRefs` reference pictures. -/
def h265ExactSizes (numRefs width height : ℕ) : UvdExactSizes :=
  let triple := Align.up 16 width * Align.up 16 height * 3
  let imageSize := Align.up 256 (triple / 2)
  let numDpbBuffer := numRefs + 2
  ⟨imageSize, triple, imageSize * numDpbBuffer,
    some ((width + 255) / 16 * ((height + 255) / 16) * 16 * numDpbBuffer + 52 * 1024)⟩

/-- The sizes of the frame of a message. -/
def uvdExactSizes (useCtxBuf : Bool) (msg : ℕ → BitVec 32) : Option UvdExactSizes :=
  let width := (msg 6).toNat
  let height := (msg 7).toNat
  if msg 4 = 0 then some (h264ExactSizes false (msg 57) width height)
  else if msg 4 = 1 then some (vc1ExactSizes width height)
  else if msg 4 = 3 then some (mpeg2ExactSizes width height)
  else if msg 4 = 4 then some (mpeg4ExactSizes width height)
  else if msg 4 = 7 then some (h264ExactSizes useCtxBuf (msg 57) width height)
  else if msg 4 = 16 then some (h265ExactSizes ((msg 59).toNat % 256) width height)
  else none

/-- The sizes that `amdgpu_uvd_cs_msg_decode` returns are at least those of the frame. -/
def UvdSizesSuffice (useCtxBuf : Bool) (msg : ℕ → BitVec 32) (bufSizes : UvdBufSizes) : Prop :=
  ∃ sizes ∈ uvdExactSizes useCtxBuf msg, sizes.minDpbSize ≤ (bufSizes 1).toNat ∧
    sizes.imageSize ≤ (bufSizes 2).toNat ∧ ∀ ctx ∈ sizes.minCtxSize, ctx ≤ (bufSizes 4).toNat

/-- No number in the formulas of the frame is too large. -/
def UvdSizesFit (useCtxBuf : Bool) (msg : ℕ → BitVec 32) : Prop :=
  ∃ sizes ∈ uvdExactSizes useCtxBuf msg, sizes.minDpbSize < 2 ^ 32 ∧ sizes.imagePeak < 2 ^ 32 ∧
    ∀ ctx ∈ sizes.minCtxSize, ctx < 2 ^ 32

instance (useCtxBuf : Bool) (msg : ℕ → BitVec 32) : Decidable (UvdSizesFit useCtxBuf msg) :=
  inferInstanceAs (Decidable (∃ _ ∈ _, _))

/-! ## Codecs -/

/-- How the sizes the driver computes compare with those of the frame. -/
structure UvdSizesTrack (sizes : UvdFrameSizes) (exact : UvdExactSizes) : Prop where
  image : exact.imageSize ≤ sizes.imageSize.toNat ↔ exact.imagePeak < 2 ^ 32
  dpb : exact.imagePeak < 2 ^ 32 → Wrap.Tracks sizes.minDpbSize exact.minDpbSize
  ctx : ∀ ctx ∈ exact.minCtxSize, Wrap.Tracks sizes.minCtxSize ctx

section Codecs

variable {width height level : BitVec 32}

theorem align32_tracks {x a : BitVec 32} {n k : ℕ} (hx : Wrap.Tracks x n)
    (ha : (a - 1).toNat = 2 ^ k - 1) (hk : k ≤ 32) :
    Wrap.Tracks (align32 x a) (Align.up (2 ^ k) n) :=
  hx.align ha hk

theorem widthInMb_tracks : Wrap.Tracks (width / 16) (width.toNat / 16) := fun _ => by
  rw [BitVec.toNat_udiv]
  rfl

theorem heightInMb_tracks :
    Wrap.Tracks (align32 (height / 16) 2) (Align.up 2 (height.toNat / 16)) :=
  align32_tracks (k := 1) widthInMb_tracks rfl (by decide)

theorem fsInMb_tracks : Wrap.Tracks (width / 16 * align32 (height / 16) 2)
    (uvdExactFsInMb width.toNat height.toNat) :=
  widthInMb_tracks.mul heightInMb_tracks

theorem uvdImageSize_tracks : Wrap.Tracks (uvdImageSize width height)
    (uvdExactImageSize width.toNat height.toNat) := by
  have hpixels := (Wrap.Tracks.toNat width).mul (Wrap.Tracks.toNat height)
  exact align32_tracks (k := 10) (hpixels.add_half (.ofNat 2) (by decide)) rfl (by decide)

/-- A frame has fewer macroblocks than pixels. -/
theorem uvdExactFsInMb_le_imageSize (w h : ℕ) : uvdExactFsInMb w h ≤ uvdExactImageSize w h := by
  have hheight : Align.up 2 (h / 16) ≤ h := by
    rw [Align.up]
    omega
  calc uvdExactFsInMb w h ≤ w * h := Nat.mul_le_mul (Nat.div_le_self w 16) hheight
    _ ≤ w * h + w * h / 2 := Nat.le_add_right _ _
    _ ≤ uvdExactImageSize w h := Align.le_up (by decide) _

theorem h264LevelMbs_le (level : BitVec 32) : (h264LevelMbs level).toNat ≤ 184320 := by
  rw [h264LevelMbs]
  split_ifs <;> decide

theorem h264NumDpbBuffer_tracks {x : BitVec 32} {n : ℕ} (hx : Wrap.Tracks x n)
    (hn : n < 2 ^ 32) :
    Wrap.Tracks (h264NumDpbBuffer level x) (h264ExactNumDpbBuffer level n) := fun _ => by
  have hlevel := h264LevelMbs_le level
  have hle := Nat.div_le_self (h264LevelMbs level).toNat n
  have hquot : (h264LevelMbs level / x + 1).toNat = (h264LevelMbs level).toNat / n + 1 := by
    refine ((Wrap.Tracks.toNat _).div hx (BitVec.isLt _) hn).add (.ofNat 1) ?_
    omega
  have h17 : (17 : BitVec 32).toNat = 17 := rfl
  rw [h264NumDpbBuffer, h264ExactNumDpbBuffer]
  simp only [gt_iff_lt, BitVec.lt_def, hquot, h17]
  split_ifs with hlt
  · rw [h17, min_eq_right hlt.le]
  · rw [hquot, min_eq_left (not_lt.mp hlt)]

theorem h264ExactNumDpbBuffer_pos (level : BitVec 32) (n : ℕ) :
    0 < h264ExactNumDpbBuffer level n := by
  exact lt_min (Nat.succ_pos _) (by decide)

/-- **H.264**: the number of reference pictures is right if the macroblocks are. -/
theorem h264Sizes_track {ctxBuf : Bool} {sizes : UvdFrameSizes}
    (h : h264Sizes ctxBuf level width height = some sizes) :
    UvdSizesTrack sizes (h264ExactSizes ctxBuf level width.toNat height.toNat) := by
  have hfs : Wrap.Tracks (width / 16 * align32 (height / 16) 2) _ := fsInMb_tracks
  have himage : Wrap.Tracks (uvdImageSize width height) _ := uvdImageSize_tracks
  have hle := uvdExactFsInMb_le_imageSize width.toNat height.toNat
  have hnum : uvdExactFsInMb width.toNat height.toNat < 2 ^ 32 →
      Wrap.Tracks (h264NumDpbBuffer level _) _ := h264NumDpbBuffer_tracks hfs
  rw [h264Sizes] at h
  split_ifs at h with hzero hctx
  · obtain rfl := Option.some.inj h
    rw [h264ExactSizes, if_pos hctx]
    refine ⟨himage.le_toNat_iff, fun hpeak => ?_, fun ctx hsome => ?_⟩
    · exact himage.mul (hnum (hle.trans_lt hpeak))
    · obtain rfl := Option.some.inj hsome
      intro hlt
      refine ((hfs.mul (hnum ?_)).mul (.ofNat 192)) hlt
      have hpos := h264ExactNumDpbBuffer_pos level (uvdExactFsInMb width.toNat height.toNat)
      have hmul := Nat.le_mul_of_pos_right (uvdExactFsInMb width.toNat height.toNat) hpos
      omega
  · obtain rfl := Option.some.inj h
    rw [h264ExactSizes, if_neg hctx]
    refine ⟨himage.le_toNat_iff, fun hpeak => ?_, fun ctx hsome => (by cases hsome)⟩
    have hnum := hnum (hle.trans_lt hpeak)
    exact ((himage.mul hnum).add ((hfs.mul hnum).mul (.ofNat 192))).add (hfs.mul (.ofNat 32))

/-- **VC-1** -/
theorem vc1Sizes_track :
    UvdSizesTrack (vc1Sizes width height) (vc1ExactSizes width.toNat height.toNat) := by
  have hwidth : Wrap.Tracks (width / 16) _ := widthInMb_tracks
  have hheight : Wrap.Tracks (align32 (height / 16) 2) _ := heightInMb_tracks
  have himage : Wrap.Tracks (uvdImageSize width height) _ := uvdImageSize_tracks
  refine ⟨himage.le_toNat_iff, fun _ => ?_, fun ctx hsome => (by cases hsome)⟩
  have hbp := align32_tracks (a := 64) (k := 6)
    (((hwidth.max hheight).mul (.ofNat 7)).mul (.ofNat 16)) rfl (by decide)
  exact ((((himage.mul (.ofNat 3)).add (fsInMb_tracks.mul (.ofNat 128))).add
    (hwidth.mul (.ofNat 64))).add (hwidth.mul (.ofNat 128))).add hbp

/-- **MPEG-2** -/
theorem mpeg2Sizes_track :
    UvdSizesTrack (mpeg2Sizes width height) (mpeg2ExactSizes width.toNat height.toNat) := by
  have himage : Wrap.Tracks (uvdImageSize width height) _ := uvdImageSize_tracks
  exact ⟨himage.le_toNat_iff, fun _ => himage.mul (.ofNat 3), fun ctx hsome => (by cases hsome)⟩

/-- **MPEG-4** -/
theorem mpeg4Sizes_track :
    UvdSizesTrack (mpeg4Sizes width height) (mpeg4ExactSizes width.toNat height.toNat) := by
  have hfs : Wrap.Tracks (width / 16 * align32 (height / 16) 2) _ := fsInMb_tracks
  have himage : Wrap.Tracks (uvdImageSize width height) _ := uvdImageSize_tracks
  refine ⟨himage.le_toNat_iff, fun _ => ?_, fun ctx hsome => (by cases hsome)⟩
  have hit := align32_tracks (a := 64) (k := 6) (hfs.mul (.ofNat 32)) rfl (by decide)
  exact ((himage.mul (.ofNat 3)).add (hfs.mul (.ofNat 64))).add hit

/-- Half of a product that overflows is too small for the image of H.265. -/
theorem h265ImageSize_le_iff {x : BitVec 32} {n : ℕ} (hx : Wrap.Tracks x n) (h3 : 3 ∣ n)
    (h2 : 2 ∣ n) :
    Align.up 256 (n / 2) ≤ (align32 (x / 2) 256).toNat ↔ n < 2 ^ 32 := by
  have hhalf : (x / 2).toNat = x.toNat / 2 := BitVec.toNat_udiv
  have hle : Align.up 256 (x.toNat / 2) ≤ 2 ^ 31 := by
    have hlt := x.isLt
    exact Align.up_le (by decide) (by decide) (by omega)
  have halign : (align32 (x / 2) 256).toNat = Align.up 256 (x.toNat / 2) :=
    align32_tracks (k := 8) (hhalf ▸ Wrap.Tracks.toNat _) rfl (by decide)
      (hle.trans_lt (by decide))
  constructor
  · intro h
    have hup := Align.le_up (A := 256) (by decide) (n / 2)
    omega
  · intro h
    rw [halign, hx h]

theorem h265NumDpbBuffer_tracks (numRefs : BitVec 32) :
    Wrap.Tracks ((numRefs &&& 0xff) + 2) (numRefs.toNat % 256 + 2) := by
  have hand : (numRefs &&& 0xff).toNat = numRefs.toNat % 256 := by
    rw [BitVec.toNat_and]
    exact Nat.and_two_pow_sub_one_eq_mod numRefs.toNat 8
  exact (hand ▸ Wrap.Tracks.toNat _).add (.ofNat 2)

/-- If the context buffer of H.265 is not too large, neither are the dimensions. -/
theorem h265Dimensions_lt {w h n : ℕ}
    (hlt : (w + 255) / 16 * ((h + 255) / 16) * 16 * (n + 2) + 52 * 1024 < 2 ^ 32) :
    w + 255 < 2 ^ 32 ∧ h + 255 < 2 ^ 32 := by
  have hcols : 15 ≤ (w + 255) / 16 := by omega
  have hrows : 15 ≤ (h + 255) / 16 := by omega
  have hmul : ∀ a b : ℕ, 15 ≤ b → a * 15 * 16 * 2 ≤ a * b * 16 * (n + 2) := fun a b hb =>
    Nat.mul_le_mul (Nat.mul_le_mul_right 16 (Nat.mul_le_mul_left a hb)) (Nat.le_add_left 2 n)
  have hw := hmul ((w + 255) / 16) _ hrows
  have hh := hmul ((h + 255) / 16) _ hcols
  rw [Nat.mul_comm ((h + 255) / 16) ((w + 255) / 16)] at hh
  constructor <;> omega

/-- **H.265** -/
theorem h265Sizes_track {numRefs : BitVec 32} :
    UvdSizesTrack (h265Sizes numRefs width height)
      (h265ExactSizes (numRefs.toNat % 256) width.toNat height.toNat) := by
  have hnum := h265NumDpbBuffer_tracks numRefs
  have hwidth : Wrap.Tracks (align32 width 16) (Align.up 16 width.toNat) :=
    align32_tracks (k := 4) (.toNat width) rfl (by decide)
  have hheight : Wrap.Tracks (align32 height 16) (Align.up 16 height.toNat) :=
    align32_tracks (k := 4) (.toNat height) rfl (by decide)
  have htriple := (hwidth.mul hheight).mul (.ofNat 3)
  have himage := h265ImageSize_le_iff htriple (Nat.dvd_mul_left _ _) (by
    have h16 : 2 ∣ Align.up 16 width.toNat := (by decide : 2 ∣ 16).trans (Align.dvd_up 16 _)
    exact (h16.mul_right _).mul_right _)
  refine ⟨himage, fun hpeak => ?_, fun ctx hsome => ?_⟩
  · have hhalf := htriple.div (.ofNat 2) hpeak (by decide)
    exact (align32_tracks (k := 8) hhalf rfl (by decide)).mul hnum
  · obtain rfl := Option.some.inj hsome
    intro hlt
    obtain ⟨hw, hh⟩ := h265Dimensions_lt hlt
    have hcols := ((Wrap.Tracks.toNat width).add (.ofNat 255)).div (.ofNat 16) hw (by decide)
    have hrows := ((Wrap.Tracks.toNat height).add (.ofNat 255)).div (.ofNat 16) hh (by decide)
    exact ((((hcols.mul hrows).mul (.ofNat 16)).mul hnum).add (.ofNat (52 * 1024))) hlt

/-! ## Messages -/

/-- The division by zero. -/
theorem h264Sizes_eq_none_iff {ctxBuf : Bool} :
    h264Sizes ctxBuf level width height = none ↔
      2 ^ 32 ∣ uvdExactFsInMb width.toNat height.toNat := by
  have hwidth : (width / 16).toNat = width.toNat / 16 := BitVec.toNat_udiv
  have hlt : Align.up 2 (height.toNat / 16) < 2 ^ 32 := by
    have hheight := height.isLt
    rw [Align.up]
    omega
  have hfs : (width / 16 * align32 (height / 16) 2).toNat =
      uvdExactFsInMb width.toNat height.toNat % 2 ^ 32 := by
    rw [BitVec.toNat_mul, hwidth, heightInMb_tracks hlt, uvdExactFsInMb]
  have hzero : width / 16 * align32 (height / 16) 2 = 0 ↔
      2 ^ 32 ∣ uvdExactFsInMb width.toNat height.toNat := by
    rw [← BitVec.toNat_inj, hfs, Nat.dvd_iff_mod_eq_zero]
    rfl
  rw [← hzero, h264Sizes]
  split_ifs with h
  · exact iff_of_true rfl h
  · exact iff_of_false id h
  · exact iff_of_false id h

end Codecs

section Messages

variable {useCtxBuf : Bool} {msg : ℕ → BitVec 32}

theorem uvdFrameSizes_eq_none_iff :
    uvdFrameSizes useCtxBuf msg = .ok none ↔ (msg 4 = 0 ∨ msg 4 = 7) ∧
      2 ^ 32 ∣ uvdExactFsInMb (msg 6).toNat (msg 7).toNat := by
  rw [uvdFrameSizes]
  split_ifs <;> simp_all [h264Sizes_eq_none_iff]

/-- The sizes of the frame of a message. -/
theorem uvdFrameSizes_track {sizes : UvdFrameSizes}
    (h : uvdFrameSizes useCtxBuf msg = .ok (some sizes)) :
    ∃ exact, uvdExactSizes useCtxBuf msg = some exact ∧ UvdSizesTrack sizes exact := by
  rw [uvdFrameSizes] at h
  rw [uvdExactSizes]
  split_ifs at h ⊢
  · exact ⟨_, rfl, h264Sizes_track (Except.ok.inj h)⟩
  · obtain rfl := Option.some.inj (Except.ok.inj h)
    exact ⟨_, rfl, vc1Sizes_track⟩
  · obtain rfl := Option.some.inj (Except.ok.inj h)
    exact ⟨_, rfl, mpeg2Sizes_track⟩
  · obtain rfl := Option.some.inj (Except.ok.inj h)
    exact ⟨_, rfl, mpeg4Sizes_track⟩
  · exact ⟨_, rfl, h264Sizes_track (Except.ok.inj h)⟩
  · obtain rfl := Option.some.inj (Except.ok.inj h)
    exact ⟨_, rfl, h265Sizes_track⟩

/-- **Decode messages.** There is a division by zero if and only if the message is for H.264 and
the number of macroblocks of the frame is a multiple of `2 ^ 32`. The sizes of a message that is
accepted are at least those of the formulas over natural numbers if and only if all numbers in
these formulas fit into 32 bits. -/
theorem uvd_decode_sizes_iff (useCtxBuf : Bool) (msg : ℕ → BitVec 32) (bufSizes : UvdBufSizes) :
    ((∀ s, uvdCsMsgDecode useCtxBuf msg bufSizes ≠ .bug s) ↔ (msg 4 = 0 ∨ msg 4 = 7 →
      ¬ 2 ^ 32 ∣ uvdExactFsInMb (msg 6).toNat (msg 7).toNat)) ∧
    ∀ sizes, uvdCsMsgDecode useCtxBuf msg bufSizes = .ret sizes none →
      (UvdSizesSuffice useCtxBuf msg sizes ↔ UvdSizesFit useCtxBuf msg) := by
  rw [uvdCsMsgDecode]
  have hzero : uvdFrameSizes useCtxBuf msg = .ok none ↔ _ := uvdFrameSizes_eq_none_iff
  rw [← not_and, ← hzero]
  rcases hframe : uvdFrameSizes useCtxBuf msg with e | _ | frame
  · simp
  · simp
  · refine ⟨?_, fun sizes h => ?_⟩
    · dsimp only
      split_ifs <;> simp
    dsimp only at h
    split_ifs at h with hpitch hdpb
    · cases h
    · cases h
    obtain ⟨rfl, -⟩ := Outcome.ret.inj h
    obtain ⟨exact, hexact, htrack⟩ := uvdFrameSizes_track hframe
    rw [BitVec.lt_def, not_lt] at hdpb
    simp only [UvdSizesSuffice, UvdSizesFit, hexact, Option.mem_def, Option.some.injEq,
      exists_eq_left']
    constructor
    · rintro ⟨hmin, himage, hctx⟩
      exact ⟨hmin.trans_lt (msg 9).isLt, htrack.image.mp himage,
        fun ctx hsome => (htrack.ctx ctx hsome).le_toNat_iff.mp (hctx ctx hsome)⟩
    · rintro ⟨hmin, hpeak, hctx⟩
      exact ⟨(htrack.dpb hpeak hmin).ge.trans hdpb, htrack.image.mpr hpeak,
        fun ctx hsome => (htrack.ctx ctx hsome).le_toNat_iff.mpr (hctx ctx hsome)⟩

end Messages

/-- A decode message with a stream type, a width, a height, a size of the reference picture buffer
and a pitch, for one reference picture. -/
def decodeMsg (streamType width height dpbSize pitch : BitVec 32) : ℕ → BitVec 32
  | 4 => streamType
  | 6 => width
  | 7 => height
  | 9 => dpbSize
  | 28 => pitch
  | 59 => 1
  | _ => 0

/-- A frame of H.265. -/
theorem uvd_decode_sizes_iff_hd :
    ∃ sizes, uvdCsMsgDecode true (decodeMsg 16 1920 1080 0x1000000 2048) uvdBufSizes =
      .ret sizes none ∧ UvdSizesSuffice true (decodeMsg 16 1920 1080 0x1000000 2048) sizes := by
  have hsizes := (uvd_decode_sizes_iff true (decodeMsg 16 1920 1080 0x1000000 2048) uvdBufSizes).2
  exact ⟨_, rfl, (hsizes _ rfl).mpr (by decide)⟩

/-- The size of a frame of `65536` times `65536` pixels is `0`, so that no buffers are needed for
it; and a small frame of H.264 stops the machine. -/
theorem uvd_decode_sizes_wrong :
    (∃ sizes, uvdCsMsgDecode true (decodeMsg 3 65536 65536 0 65536) uvdBufSizes =
        .ret sizes none ∧ sizes 1 = 0 ∧ sizes 2 = 0 ∧
      ¬ UvdSizesSuffice true (decodeMsg 3 65536 65536 0 65536) sizes) ∧
    ∃ sizes, uvdCsMsgDecode true (decodeMsg 0 8 8 0 8) uvdBufSizes = .bug sizes := by
  refine ⟨⟨_, rfl, rfl, rfl, ?_⟩, _, rfl⟩
  rintro ⟨sizes, hsizes, hdpb, -⟩
  obtain rfl := Option.some.inj hsizes
  exact absurd hdpb (by decide)

end Amdgpu
