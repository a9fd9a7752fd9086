import Szczupak.Drivers.FrameBytesCore
import Szczupak.Lib.Painter
import Szczupak.Lib.WordMasks

/-!
`fb_fill_rect` against `fb_putpixel`, byte by byte.  Both put the bytes of one pixel at the places
of some pixels, and the places of two pixels of the screen have no byte in common.
-/

namespace Szczupak.FrameBytes

/-- What `framebuffer_init` has checked, for a buffer below 2^40 bytes. -/
structure FramebufferInfo.Sound (fb : FramebufferInfo) : Prop where
  shown : 0 < fb.width.toNat ∧ 0 < fb.height.toNat
  pixel : 0 < fb.bytesPerPixel.toNat ∧ fb.bytesPerPixel.toNat ≤ 4
  row : fb.width.toNat * fb.bytesPerPixel.toNat ≤ fb.pitch.toNat
  buffer : fb.bufferSize.toNat = fb.pitch.toNat * fb.height.toNat
  small : fb.bufferSize.toNat < 2 ^ 40
  mapped : fbVirtBase.toNat ≤ fb.virtAddress.toNat ∧ fb.virtAddress.toNat < fbVirtBase.toNat + 4096

def pixelPlace (fb : FramebufferInfo) (x y : Nat) : Nat :=
  fb.virtAddress.toNat + y * fb.pitch.toNat + x * fb.bytesPerPixel.toNat

def pixelBytes (fb : FramebufferInfo) (color : FbColor) : List UInt8 :=
  if palettized fb then [fbPackColor8 color]
  else Mem.leBytes fb.bytesPerPixel.toNat (fbPackNativeColor fb color).toNat

def bytesInk (bytes : List UInt8) (place address : Nat) : Option UInt8 :=
  if place ≤ address ∧ address < place + bytes.length then some (bytes.getD (address - place) 0)
    else none

variable {bytes : List UInt8}

theorem bytesInk_some {place address : Nat} {value : UInt8}
    (inked : bytesInk bytes place address = some value) :
    (place ≤ address ∧ address < place + bytes.length) ∧ value = bytes.getD (address - place) 0 := by
  rw [bytesInk] at inked
  split at inked
  next within => exact ⟨within, (Option.some.inj inked).symm⟩
  next => exact absurd inked (by simp)

theorem store_ink (mem : Mem) (place : Nat) (bytes : List UInt8) :
    mem.store place bytes = fun address => (bytesInk bytes place address).getD (mem address) := by
  funext address
  rw [Mem.store, bytesInk]
  split
  · rfl
  · rfl

theorem store_paint (mem : Mem) (place : Nat) (bytes : List UInt8) (places : List Nat) :
    paint (bytesInk bytes) (place :: places) mem = paint (bytesInk bytes) places
    (mem.store place bytes) := by
  rw [store_ink]
  rfl

theorem fbIsCanonical_high {addr : UInt64} (high : fbVirtBase.toNat ≤ addr.toNat) :
    fbIsCanonical addr = true := by
  have base : fbVirtBase.toNat = 0xFFFF800210000000 := rfl
  have above : addr ≥ 0xFFFF800000000000 := by
    rw [ge_iff_le, UInt64.le_iff_toNat_le]
    have bound : (0xFFFF800000000000 : UInt64).toNat = 0xFFFF800000000000 := rfl
    omega
  simp [fbIsCanonical, above]

theorem toNat_toUInt64 (value : UInt32) : value.toUInt64.toNat = value.toNat :=
  UInt32.toNat_toUInt64 value

theorem configureColorLayout_keeps (tag : FramebufferTag) (fb : FramebufferInfo) :
    (configureColorLayout tag fb).toFbInfo = fb.toFbInfo ∧
    (configureColorLayout tag fb).address = fb.address ∧
      (configureColorLayout tag fb).pitch = fb.pitch ∧ (configureColorLayout tag fb).bytesPerPixel =
      fb.bytesPerPixel ∧ (configureColorLayout tag fb).bufferSize = fb.bufferSize := by
  have default : (applyDefaultColorLayout fb).toFbInfo = fb.toFbInfo ∧
    (applyDefaultColorLayout fb).address = fb.address ∧
      (applyDefaultColorLayout fb).pitch = fb.pitch ∧ (applyDefaultColorLayout fb).bytesPerPixel =
      fb.bytesPerPixel ∧ (applyDefaultColorLayout fb).bufferSize = fb.bufferSize := by
    rw [applyDefaultColorLayout]
    split
    · exact ⟨rfl, rfl, rfl, rfl, rfl⟩
    · exact ⟨rfl, rfl, rfl, rfl, rfl⟩
  rw [configureColorLayout]
  split
  · exact default
  · split
    · exact default
    · split
      · exact default
      · exact default

theorem framebufferInit_sound {tag : FramebufferTag} {kernelDir : Option (UInt64 → UInt64 → Bool)}
    {fb : FramebufferInfo}
    (accepted : framebufferInit tag kernelDir = some fb) (small : fb.bufferSize.toNat < 2 ^ 40) :
    fb.Sound := by
  simp only [framebufferInit] at accepted
  split at accepted
  · exact absurd accepted (by simp)
  rename_i geometry
  split at accepted
  · exact absurd accepted (by simp)
  rename_i wide
  split at accepted
  · exact absurd accepted (by simp)
  cases kernelDir with
  | none => exact absurd accepted (by simp)
  | some mapPage =>
      dsimp only at accepted
      split at accepted
      · obtain ⟨info, address, pitch, bytes, size⟩ := configureColorLayout_keeps tag (readTag tag)
        rw [Option.some.injEq] at accepted
        subst accepted
        simp only [not_or] at geometry
        obtain ⟨_, width, height, some', most⟩ := geometry
        refine ⟨?_, ?_, ?_, ?_, small, ?_⟩
        · dsimp only
          rw [info]
          exact ⟨Nat.pos_of_ne_zero fun zero => width (UInt32.toNat_inj.mp zero),
            Nat.pos_of_ne_zero fun zero => height (UInt32.toNat_inj.mp zero)⟩
        · dsimp only
          rw [bytes]
          exact ⟨Nat.pos_of_ne_zero fun zero => some' (UInt32.toNat_inj.mp zero), Nat.not_lt.mp fun more =>
            most (UInt32.lt_iff_toNat_lt.mpr more)⟩
        · dsimp only
          rw [info, bytes, pitch]
          rw [UInt64.lt_iff_toNat_lt, UInt64.toNat_mul, toNat_toUInt64, toNat_toUInt64, toNat_toUInt64] at wide
          have fits : (readTag tag).width.toNat * (readTag tag).bytesPerPixel.toNat < 2 ^ 64 :=
            Nat.lt_of_lt_of_le (Nat.mul_lt_mul'' (readTag tag).width.toNat_lt
              (readTag tag).bytesPerPixel.toNat_lt) (by norm_num)
          rw [Nat.mod_eq_of_lt fits] at wide
          exact Nat.not_lt.mp wide
        · dsimp only
          rw [info, pitch, size]
          have product : (readTag tag).bufferSize = (readTag tag).pitch.toUInt64 *
            (readTag tag).height.toUInt64 := rfl
          have fits : (readTag tag).pitch.toNat * (readTag tag).height.toNat < 2 ^ 64 :=
            Nat.lt_of_lt_of_le (Nat.mul_lt_mul'' (readTag tag).pitch.toNat_lt
              (readTag tag).height.toNat_lt) (by norm_num)
          rw [product, UInt64.toNat_mul, toNat_toUInt64, toNat_toUInt64, Nat.mod_eq_of_lt fits]
        · dsimp only
          rw [address]
          have page := toNat_sub_page (readTag tag).address 0xFFF
          have last : (0xFFF : UInt64).toNat = 4095 := rfl
          have base : fbVirtBase.toNat = 0xFFFF800210000000 := rfl
          rw [UInt64.toNat_add, Nat.mod_eq_of_lt (by omega)]
          omega
      · exact absurd accepted (by simp)

section Places

variable {fb : FramebufferInfo} {x y col row : Nat}

theorem FramebufferInfo.Sound.sane (sound : fb.Sound) : fbEnsureRuntimeSane fb = true := by
  have base : fbVirtBase.toNat = 0xFFFF800210000000 := rfl
  have mapped := sound.mapped
  have pixel := sound.pixel
  have shown := sound.shown
  have positive : 0 < fb.pitch.toNat := Nat.lt_of_lt_of_le (Nat.mul_pos shown.1 pixel.1) sound.row
  have nonzero (word : UInt32) (above : 0 < word.toNat) : (word != 0) = true := by
    rw [bne_iff_ne]
    rintro rfl
    exact absurd above (by decide)
  have virt : (fb.virtAddress != 0) = true := by
    rw [bne_iff_ne]
    intro zero
    rw [zero] at mapped
    exact absurd mapped.1 (by decide)
  have most : fb.bytesPerPixel ≤ 4 := UInt32.le_iff_toNat_le.mpr pixel.2
  have least : fb.bytesPerPixel > 0 := UInt32.lt_iff_toNat_lt.mpr pixel.1
  simp only [fbEnsureRuntimeSane, virt, nonzero _ shown.1, nonzero _ shown.2,
    nonzero _ positive, most, least, Bool.and_self, decide_true]

theorem pixelPlace_next (fb : FramebufferInfo) (x y : Nat) :
    pixelPlace fb (x + 1) y = pixelPlace fb x y + fb.bytesPerPixel.toNat := by
  rw [pixelPlace, pixelPlace, Nat.succ_mul, Nat.add_assoc, Nat.add_assoc, Nat.add_assoc]

theorem FramebufferInfo.Sound.within_row (sound : fb.Sound) (right : x < fb.width.toNat) :
    x * fb.bytesPerPixel.toNat + fb.bytesPerPixel.toNat ≤ fb.pitch.toNat := by
  have next : (x + 1) * fb.bytesPerPixel.toNat ≤ fb.width.toNat * fb.bytesPerPixel.toNat :=
    Nat.mul_le_mul_right _ right
  rw [Nat.succ_mul] at next
  exact Nat.le_trans next sound.row

theorem FramebufferInfo.Sound.within (sound : fb.Sound) (right : x < fb.width.toNat)
    (bottom : y < fb.height.toNat) :
    y * fb.pitch.toNat + x * fb.bytesPerPixel.toNat + fb.bytesPerPixel.toNat ≤ fb.bufferSize.toNat := by
  have inRow := sound.within_row right
  have rows : (y + 1) * fb.pitch.toNat ≤ fb.height.toNat * fb.pitch.toNat :=
    Nat.mul_le_mul_right _ bottom
  rw [Nat.succ_mul] at rows
  rw [sound.buffer, Nat.mul_comm fb.pitch.toNat]
  omega

theorem FramebufferInfo.Sound.places_apart (sound : fb.Sound) {x' y' address : Nat}
    (right : x < fb.width.toNat)
    (right' : x' < fb.width.toNat) (from' : pixelPlace fb x y ≤ address)
    (to' : address < pixelPlace fb x y + fb.bytesPerPixel.toNat)
    (fromOther : pixelPlace fb x' y' ≤ address)
    (toOther : address < pixelPlace fb x' y' + fb.bytesPerPixel.toNat) :
    pixelPlace fb x y = pixelPlace fb x' y' := by
  have inRow := sound.within_row right
  have inRow' := sound.within_row right'
  simp only [pixelPlace] at *
  rcases Nat.lt_trichotomy y y' with above | same | below
  · have rows : (y + 1) * fb.pitch.toNat ≤ y' * fb.pitch.toNat := Nat.mul_le_mul_right _ above
    rw [Nat.succ_mul] at rows
    omega
  · subst same
    rcases Nat.lt_trichotomy x x' with before | same | after
    · have cols : (x + 1) * fb.bytesPerPixel.toNat ≤ x' * fb.bytesPerPixel.toNat :=
        Nat.mul_le_mul_right _ before
      rw [Nat.succ_mul] at cols
      omega
    · rw [same]
    · have cols : (x' + 1) * fb.bytesPerPixel.toNat ≤ x * fb.bytesPerPixel.toNat := Nat.mul_le_mul_right _ after
      rw [Nat.succ_mul] at cols
      omega
  · have rows : (y' + 1) * fb.pitch.toNat ≤ y * fb.pitch.toNat := Nat.mul_le_mul_right _ below
    rw [Nat.succ_mul] at rows
    omega

theorem FramebufferInfo.Sound.lastPixel (sound : fb.Sound) :
    (fb.bufferSize - fb.bytesPerPixel.toUInt64).toNat =
    fb.bufferSize.toNat - fb.bytesPerPixel.toNat := by
  have first := sound.within sound.shown.1 sound.shown.2
  rw [UInt64.toNat_sub_of_le, toNat_toUInt64]
  rw [UInt64.le_iff_toNat_le, toNat_toUInt64]
  omega

theorem FramebufferInfo.Sound.fbPixelPtr (sound : fb.Sound) {x y : UInt32}
    (right : x.toNat < fb.width.toNat) (bottom : y.toNat < fb.height.toNat) :
    ∃ pixel, FrameBytes.fbPixelPtr fb x y = some pixel ∧
    pixel.toNat = pixelPlace fb x.toNat y.toNat := by
  have base : fbVirtBase.toNat = 0xFFFF800210000000 := rfl
  have mapped := sound.mapped
  have small := sound.small
  have pixel := sound.pixel
  have within := sound.within right bottom
  have rowOff : (y.toUInt64 * fb.pitch.toUInt64).toNat = y.toNat * fb.pitch.toNat := by
    rw [UInt64.toNat_mul, toNat_toUInt64, toNat_toUInt64, Nat.mod_eq_of_lt (by omega)]
  have colOff : (x.toUInt64 * fb.bytesPerPixel.toUInt64).toNat = x.toNat * fb.bytesPerPixel.toNat := by
    rw [UInt64.toNat_mul, toNat_toUInt64, toNat_toUInt64, Nat.mod_eq_of_lt (by omega)]
  have offset : (y.toUInt64 * fb.pitch.toUInt64 + x.toUInt64 * fb.bytesPerPixel.toUInt64).toNat =
      y.toNat * fb.pitch.toNat + x.toNat * fb.bytesPerPixel.toNat := by
    rw [UInt64.toNat_add, rowOff, colOff, Nat.mod_eq_of_lt (by omega)]
  have addr : (fb.virtAddress + (y.toUInt64 * fb.pitch.toUInt64 + x.toUInt64 *
      fb.bytesPerPixel.toUInt64)).toNat = pixelPlace fb x.toNat y.toNat := by
    rw [UInt64.toNat_add, offset, Nat.mod_eq_of_lt (by omega), pixelPlace, Nat.add_assoc]
  have last := sound.lastPixel
  refine ⟨_, ?_, addr⟩
  simp only [FrameBytes.fbPixelPtr]
  rw [if_neg (by rw [sound.sane]; decide)]
  rw [if_neg (by simp only [ge_iff_le, UInt32.le_iff_toNat_le]; omega)]
  rw [if_neg (by rw [gt_iff_lt, UInt64.lt_iff_toNat_lt, rowOff]; omega)]
  rw [if_neg (by rw [gt_iff_lt, UInt64.lt_iff_toNat_lt, colOff]; omega)]
  rw [if_neg (by rw [UInt64.lt_iff_toNat_lt, offset, rowOff]; omega)]
  rw [if_neg (by rw [gt_iff_lt, UInt64.lt_iff_toNat_lt, offset, last]; omega)]
  have above : fbVirtBase.toNat ≤ pixelPlace fb x.toNat y.toNat := by
    rw [pixelPlace]
    omega
  have below : pixelPlace fb x.toNat y.toNat + 4 < 2 ^ 64 := by
    rw [pixelPlace]
    omega
  have one : (1 : UInt64).toNat = 1 := rfl
  rw [if_neg, if_neg]
  · rw [fbIsCanonical_high]
    · decide
    · rw [UInt64.toNat_sub_of_le, UInt64.toNat_add, addr, toNat_toUInt64, one, Nat.mod_eq_of_lt (by omega)]
      · omega
      · rw [UInt64.le_iff_toNat_le, UInt64.toNat_add, addr, toNat_toUInt64, one, Nat.mod_eq_of_lt (by omega)]
        omega
  · rw [fbIsCanonical_high (by rw [addr]; exact above)]
    decide

end Places

theorem shifted_byte (value : UInt32) {index : Nat} (low : index < 4) :
    (value >>> (UInt32.ofNat index * 8) &&& 0xFF).toUInt8 =
    UInt8.ofNat (value.toNat / 256 ^ index % 256) := by
  apply UInt8.toNat_inj.mp
  have count : (UInt32.ofNat index * 8).toNat = 8 * index := by
    rw [UInt32.toNat_mul, UInt32.toNat_ofNat_of_lt' (by exact Nat.lt_trans low (by decide))]
    have eight : (8 : UInt32).toNat = 8 := rfl
    rw [eight]
    omega
  have mask : (0xFF : UInt32).toNat = 2 ^ 8 - 1 := rfl
  rw [UInt32.toNat_toUInt8, UInt32.toNat_and, UInt32.toNat_shiftRight, count, mask,
    Nat.and_two_pow_sub_one_eq_mod,
    Nat.mod_eq_of_lt (show 8 * index < 32 by omega), Nat.shiftRight_eq_div_pow, Nat.pow_mul,
    UInt8.toNat_ofNat']

theorem storeBytes_store {pixel : UInt64} (value : UInt32) {count : Nat} (mem : Mem)
    (low : count ≤ 4) (fits : pixel.toNat + count < 2 ^ 64) :
    storeBytes pixel value count mem = mem.store pixel.toNat (Mem.leBytes count value.toNat) := by
  induction count with
  | zero => exact (Mem.store_nil mem _).symm
  | succ count ih =>
      have place : (pixel + UInt64.ofNat count).toNat = pixel.toNat + count := by
        rw [UInt64.toNat_add, UInt64.toNat_ofNat_of_lt' (by show count < 2 ^ 64; omega),
          Nat.mod_eq_of_lt (by omega)]
      have before := ih (by omega) (by omega)
      rw [storeBytes] at before ⊢
      rw [List.range_succ, List.foldl_append, before, List.foldl_cons, List.foldl_nil, place,
        shifted_byte value (by omega), Mem.leBytes_succ, ← Mem.store_concat, Mem.leBytes_length]

theorem low_halfword (value : UInt32) : Mem.leBytes 2 (value &&& 0xFFFF).toNat =
    Mem.leBytes 2 value.toNat := by
  have mask : (0xFFFF : UInt32).toNat = 2 ^ 16 - 1 := rfl
  rw [UInt32.toNat_and, mask, Nat.and_two_pow_sub_one_eq_mod]
  exact Mem.leBytes_mod 2 value.toNat

section Drawing

variable {fb : FramebufferInfo} {color : FbColor}

def Puts (fb : FramebufferInfo) (put : UInt64 → Mem → Mem) (bytes : List UInt8) : Prop :=
  ∀ (pixel : UInt64) (mem : Mem), fb.virtAddress.toNat ≤ pixel.toNat →
    pixel.toNat + fb.bytesPerPixel.toNat ≤ fb.virtAddress.toNat + fb.bufferSize.toNat →
    put pixel mem = mem.store pixel.toNat bytes

theorem FramebufferInfo.Sound.fbStoreNativePixel (sound : fb.Sound) (value : UInt32) :
    Puts fb (fun pixel mem => FrameBytes.fbStoreNativePixel fb pixel value mem)
      (Mem.leBytes fb.bytesPerPixel.toNat value.toNat) := by
  intro pixel mem lower upper
  have base : fbVirtBase.toNat = 0xFFFF800210000000 := rfl
  have mapped := sound.mapped
  have small := sound.small
  have size := sound.pixel
  have offset : (pixel - fb.virtAddress).toNat = pixel.toNat - fb.virtAddress.toNat :=
    UInt64.toNat_sub_of_le _ _ (UInt64.le_iff_toNat_le.mpr lower)
  have last := sound.lastPixel
  simp only [FrameBytes.fbStoreNativePixel]
  rw [if_neg (by rw [sound.sane]; decide)]
  rw [if_neg (by rw [fbIsCanonical_high (by omega), fbIsCanonical_high mapped.1]; decide)]
  rw [if_neg (by rw [UInt64.lt_iff_toNat_lt]; omega)]
  rw [if_neg (by rw [gt_iff_lt, UInt64.lt_iff_toNat_lt, offset, last]; omega)]
  split
  next four =>
    rw [four]
    exact Mem.writeLE_eq_store mem _ 4 _
  next =>
    split
    next two =>
      have stored := Mem.writeLE_eq_store mem pixel.toNat 2 (value &&& 0xFFFF).toNat
      rw [low_halfword] at stored
      rw [two]
      exact stored
    next => exact storeBytes_store value mem size.2 (by omega)

theorem fillSpan_paint (sound : fb.Sound) {put : UInt64 → Mem → Mem} (puts : Puts fb put bytes)
    {size dst : UInt64} (width : size.toNat = fb.bytesPerPixel.toNat) {x y cols : Nat}
    (place : dst.toNat = pixelPlace fb x y) (right : x + cols ≤ fb.width.toNat)
    (bottom : y < fb.height.toNat) (mem : Mem) : fillSpan put size cols dst mem =
      paint (bytesInk bytes) ((List.range cols).map fun col => pixelPlace fb (x + col) y) mem := by
  have base : fbVirtBase.toNat = 0xFFFF800210000000 := rfl
  have mapped := sound.mapped
  have small := sound.small
  induction cols generalizing x dst mem with
  | zero => rfl
  | succ cols ih =>
      have within := sound.within (x := x) (by omega) bottom
      have start := place
      rw [pixelPlace] at start
      have next : (dst + size).toNat = pixelPlace fb (x + 1) y := by
        rw [UInt64.toNat_add, width, pixelPlace_next, place, Nat.mod_eq_of_lt (by rw [← place]; omega)]
      rw [fillSpan, puts dst mem (by omega) (by omega), ih next (by omega), List.range_succ_eq_map,
        List.map_cons, store_paint, List.map_map, place]
      refine congrArg (fun places => paint _ places _) (List.map_congr_left fun col _ => ?_)
      simp only [Function.comp, Nat.succ_eq_add_one, Nat.add_assoc, Nat.add_comm 1]

def rectPlaces (fb : FramebufferInfo) (x y w h : Nat) : List Nat :=
  (List.range h).flatMap fun row => (List.range w).map fun col => pixelPlace fb (x + col) (y + row)

theorem mem_rectPlaces {x y w h place : Nat} :
    place ∈ rectPlaces fb x y w h ↔ ∃ row < h, ∃ col < w,
    pixelPlace fb (x + col) (y + row) = place := by
  simp only [rectPlaces, List.mem_flatMap, List.mem_map, List.mem_range]

theorem fillRows_paint (sound : fb.Sound) {put : UInt64 → Mem → Mem} (puts : Puts fb put bytes)
    {size : UInt64} (width : size.toNat = fb.bytesPerPixel.toNat) {x y w h : UInt32}
    (left : x.toNat < fb.width.toNat)
    (right : x.toNat + w.toNat ≤ fb.width.toNat) (bottom : y.toNat + h.toNat ≤ fb.height.toNat)
    (mem : Mem) : fillRows fb x y w h put size mem =
      paint (bytesInk bytes) (rectPlaces fb x.toNat y.toNat w.toNat h.toNat) mem := by
  rw [fillRows, rectPlaces]
  generalize count : h.toNat = rows at bottom
  clear count
  have high := fb.height.toNat_lt
  induction rows with
  | zero => rfl
  | succ rows ih =>
      have row : (y + UInt32.ofNat rows).toNat = y.toNat + rows := by
        rw [UInt32.toNat_add, UInt32.toNat_ofNat_of_lt' (by show rows < 2 ^ 32; omega),
          Nat.mod_eq_of_lt (by omega)]
      obtain ⟨dst, pointer, place⟩ := sound.fbPixelPtr (x := x) (y := y + UInt32.ofNat rows)
        (by omega) (by omega)
      rw [row] at place
      rw [List.range_succ, List.foldl_append, List.flatMap_append, paint_append, ih (by omega),
        List.foldl_cons, List.foldl_nil, pointer]
      dsimp only
      rw [fillSpan_paint sound puts width place right (by omega), List.flatMap_cons,
        List.flatMap_nil, List.append_nil]

theorem pixelBytes_length (fb : FramebufferInfo) (color : FbColor) :
    (pixelBytes fb color).length = fb.bytesPerPixel.toNat := by
  rw [pixelBytes]
  split
  next one =>
    simp only [palettized, Bool.and_eq_true, decide_eq_true_eq] at one
    rw [one.2]
    rfl
  next => exact Mem.leBytes_length _ _

theorem fbFillRect_paint (sound : fb.Sound) (x y w h : UInt32) (color : FbColor) (mem : Mem) :
    fbFillRect fb x y w h color mem = paint (bytesInk (pixelBytes fb color))
      (rectPlaces fb x.toNat y.toNat (min w.toNat (fb.width.toNat - x.toNat))
        (min h.toNat (fb.height.toNat - y.toNat))) mem := by
  rw [fbFillRect, if_neg (by rw [sound.sane]; decide)]
  rcases @fbClipRect_spec x y w h fb.toFbInfo with ⟨clipped, empty⟩ | ⟨left, top, clipped, right,
    bottom, leftEq, topEq⟩
  · have nothing : rectPlaces fb x.toNat y.toNat (min w.toNat (fb.width.toNat - x.toNat))
        (min h.toNat (fb.height.toNat - y.toNat)) = [] := by
      rw [List.eq_nil_iff_forall_not_mem]
      intro place member
      obtain ⟨row, rowBound, col, colBound, _⟩ := mem_rectPlaces.mp member
      omega
    rw [clipped, nothing]
    rfl
  · rw [clipped, ← leftEq, ← topEq]
    dsimp only
    rw [pixelBytes]
    split
    next indexed =>
      simp only [palettized, Bool.and_eq_true, decide_eq_true_eq] at indexed
      exact fillRows_paint sound (fun pixel mem _ _ => (Mem.store_singleton mem pixel.toNat _).symm)
        (by rw [indexed.2]; rfl)
        right (by omega) (by omega) mem
    next =>
      split
      next four =>
        rw [four]
        exact fillRows_paint sound (fun pixel mem _ _ => Mem.writeLE_eq_store mem pixel.toNat 4 _)
          (by rw [four]; rfl)
          right (by omega) (by omega) mem
      next =>
        split
        next two =>
          rw [two]
          refine fillRows_paint sound (fun pixel mem _ _ => ?_) (by rw [two]; rfl) right (by omega)
            (by omega) mem
          exact (Mem.writeLE_eq_store mem pixel.toNat 2 _).trans (congrArg _ (low_halfword _))
        next =>
          exact fillRows_paint sound (sound.fbStoreNativePixel _) (toNat_toUInt64 _) right
            (by omega) (by omega) mem

theorem fbPutpixel_store (sound : fb.Sound) {x y : UInt32} (right : x.toNat < fb.width.toNat)
    (bottom : y.toNat < fb.height.toNat) (color : FbColor) (mem : Mem) :
    fbPutpixel fb x y color mem = mem.store (pixelPlace fb x.toNat y.toNat) (pixelBytes fb color) := by
  have within := sound.within right bottom
  obtain ⟨pixel, pointer, place⟩ := sound.fbPixelPtr right bottom
  have start := place
  rw [pixelPlace] at start
  have onScreen : ¬((!fbEnsureRuntimeSane fb) = true ∨ x ≥ fb.width ∨ y ≥ fb.height) := by
    rw [sound.sane, ge_iff_le, ge_iff_le, UInt32.le_iff_toNat_le, UInt32.le_iff_toNat_le]
    simp only [Bool.not_true, Bool.false_eq_true, false_or]
    omega
  rw [fbPutpixel, if_neg onScreen, pointer, pixelBytes, ← place]
  dsimp only
  split
  · exact (Mem.store_singleton mem pixel.toNat _).symm
  · exact sound.fbStoreNativePixel _ pixel mem (by omega) (by omega)

def putPixels (fb : FramebufferInfo) (color : FbColor) (pixels : List (UInt32 × UInt32))
    (mem : Mem) : Mem :=
  pixels.foldl (fun mem pixel => fbPutpixel fb pixel.1 pixel.2 color mem) mem

def InRect (fb : FramebufferInfo) (x y w h : UInt32) (pixel : UInt32 × UInt32) : Prop :=
  ∃ i < w.toNat, ∃ j < h.toNat, pixel.1.toNat = x.toNat + i ∧ pixel.2.toNat = y.toNat + j ∧
    x.toNat + i < fb.width.toNat ∧ y.toNat + j < fb.height.toNat

theorem putPixels_paint (sound : fb.Sound) {pixels : List (UInt32 × UInt32)}
    (shown : ∀ pixel ∈ pixels, pixel.1.toNat < fb.width.toNat ∧ pixel.2.toNat < fb.height.toNat)
    (mem : Mem) : putPixels fb color pixels mem =
      paint (bytesInk (pixelBytes fb color)) (pixels.map fun pixel =>
        pixelPlace fb pixel.1.toNat pixel.2.toNat) mem := by
  induction pixels generalizing mem with
  | nil => rfl
  | cons pixel pixels ih =>
      obtain ⟨right, bottom⟩ := shown pixel List.mem_cons_self
      rw [putPixels, List.foldl_cons, ← putPixels,
        ih (fun other member => shown other (List.mem_cons_of_mem _ member)),
        fbPutpixel_store sound right bottom, List.map_cons, store_paint]

theorem inRect_iff {x y w h : UInt32} {pixel : UInt32 × UInt32} : InRect fb x y w h pixel ↔
    ∃ row < min h.toNat (fb.height.toNat - y.toNat), ∃ col < min w.toNat (fb.width.toNat - x.toNat),
      pixel.1.toNat = x.toNat + col ∧ pixel.2.toNat = y.toNat + row := by
  constructor
  · rintro ⟨i, iBound, j, jBound, left, top, right, bottom⟩
    exact ⟨j, by omega, i, by omega, left, top⟩
  · rintro ⟨row, rowBound, col, colBound, left, top⟩
    exact ⟨col, by omega, row, by omega, left, top, by omega, by omega⟩

end Drawing

/-- A filled rectangle is its pixels, put in any order, and no byte beside the buffer is written. -/
theorem fbFillRect_putPixels {tag : FramebufferTag} {kernelDir : Option (UInt64 → UInt64 → Bool)}
    {fb : FramebufferInfo}
    (accepted : framebufferInit tag kernelDir = some fb) (small : fb.bufferSize.toNat < 2 ^ 40)
    (color : FbColor) (x y w h : UInt32) {pixels : List (UInt32 × UInt32)}
    (all : ∀ pixel, pixel ∈ pixels ↔ InRect fb x y w h pixel) (mem : Mem) :
    fbFillRect fb x y w h color mem = putPixels fb color pixels mem ∧
      ∀ address, address < fb.virtAddress.toNat ∨ fb.virtAddress.toNat +
        fb.bufferSize.toNat ≤ address → fbFillRect fb x y w h color mem address = mem address := by
  have sound := framebufferInit_sound accepted small
  have shown : ∀ place ∈ rectPlaces fb x.toNat y.toNat (min w.toNat (fb.width.toNat - x.toNat))
      (min h.toNat (fb.height.toNat - y.toNat)), ∃ col row, col < fb.width.toNat ∧
        row < fb.height.toNat ∧ pixelPlace fb col row = place := by
    intro place member
    obtain ⟨row, rowBound, col, colBound, same⟩ := mem_rectPlaces.mp member
    exact ⟨_, _, by omega, by omega, same⟩
  rw [fbFillRect_paint sound]
  constructor
  · rw [putPixels_paint sound]
    · refine paint_same_strokes ?_ ?_ mem
      · intro place
        rw [mem_rectPlaces, List.mem_map]
        constructor
        · rintro ⟨row, rowBound, col, colBound, same⟩
          have wide := fb.width.toNat_lt
          have high := fb.height.toNat_lt
          have left : (UInt32.ofNat (x.toNat + col)).toNat = x.toNat + col :=
            UInt32.toNat_ofNat_of_lt' (by show x.toNat + col < 2 ^ 32; omega)
          have top : (UInt32.ofNat (y.toNat + row)).toNat = y.toNat + row :=
            UInt32.toNat_ofNat_of_lt' (by show y.toNat + row < 2 ^ 32; omega)
          refine ⟨(UInt32.ofNat (x.toNat + col), UInt32.ofNat (y.toNat + row)), ?_, ?_⟩
          · exact (all _).mpr (inRect_iff.mpr ⟨row, rowBound, col, colBound, left, top⟩)
          · rw [left, top, same]
        · rintro ⟨pixel, member, same⟩
          obtain ⟨row, rowBound, col, colBound, left, top⟩ := inRect_iff.mp ((all pixel).mp member)
          exact ⟨row, rowBound, col, colBound, by rw [← left, ← top, same]⟩
      · intro place member other otherMember address value tint inked tinted
        obtain ⟨col, row, right, bottom, rfl⟩ := shown place member
        obtain ⟨col', row', right', bottom', rfl⟩ := shown other otherMember
        obtain ⟨⟨from', to'⟩, rfl⟩ := bytesInk_some inked
        obtain ⟨⟨fromOther, toOther⟩, rfl⟩ := bytesInk_some tinted
        rw [pixelBytes_length] at to' toOther
        rw [sound.places_apart right right' from' to' fromOther toOther]
    · intro pixel member
      obtain ⟨i, _, j, _, left, top, right, bottom⟩ := (all pixel).mp member
      exact ⟨by omega, by omega⟩
  · intro address outside
    refine paint_untouched (coloursAt_eq_nil.mpr fun place member => ?_)
    obtain ⟨col, row, right, bottom, rfl⟩ := shown place member
    have within := sound.within right bottom
    rw [bytesInk, if_neg]
    rw [pixelBytes_length, pixelPlace]
    omega

def smallTag : FramebufferTag :=
  { size := 38, framebufferAddr := 0xE0000ABC, framebufferPitch := 10, framebufferWidth := 3,
    framebufferHeight := 2
    framebufferBpp := 24, framebufferType := 1, redFieldPosition := 16, redMaskSize :=
      8, greenFieldPosition := 8
    greenMaskSize := 8, blueFieldPosition := 0, blueMaskSize := 8 }

def smallScreen : FramebufferInfo :=
  { address := 0xE0000ABC, virtAddress := 0xFFFF800210000ABC, width := 3, height := 2, pitch := 10,
    bpp := 24, type := 1
    redPosition := 16, redSize := 8, greenPosition := 8, greenSize := 8, bluePosition := 0, blueSize := 8
    bytesPerPixel := 3, bufferSize := 20 }

theorem cornerRect_putPixels :
    fbFillRect smallScreen 1 0 0xFFFFFFFF 9 ⟨1, 2, 3⟩ (fun _ => 0) =
        putPixels smallScreen ⟨1, 2, 3⟩ [(2, 1), (1, 0), (1, 1), (2, 0)] (fun _ => 0) ∧
      ∀ address, address < smallScreen.virtAddress.toNat ∨
        smallScreen.virtAddress.toNat + smallScreen.bufferSize.toNat ≤ address →
          fbFillRect smallScreen 1 0 0xFFFFFFFF 9 ⟨1, 2, 3⟩ (fun _ => 0) address = 0 := by
  have width : smallScreen.width.toNat = 3 := rfl
  have height : smallScreen.height.toNat = 2 := rfl
  have one : (1 : UInt32).toNat = 1 := rfl
  have two : (2 : UInt32).toNat = 2 := rfl
  refine @fbFillRect_putPixels smallTag (some fun _ _ => true) smallScreen rfl
    (by decide) _ _ _ _ _ _ ?_ _
  rintro ⟨px, py⟩
  simp only [List.mem_cons, List.not_mem_nil, or_false, Prod.mk.injEq, ← UInt32.toNat_inj, InRect,
    width, height, one, two, UInt32.toNat_zero]
  constructor
  · rintro (⟨atX, atY⟩ | ⟨atX, atY⟩ | ⟨atX, atY⟩ | ⟨atX, atY⟩)
    · exact ⟨1, by decide, 1, by decide, atX, atY, by decide, by decide⟩
    · exact ⟨0, by decide, 0, by decide, atX, atY, by decide, by decide⟩
    · exact ⟨0, by decide, 1, by decide, atX, atY, by decide, by decide⟩
    · exact ⟨1, by decide, 0, by decide, atX, atY, by decide, by decide⟩
  · rintro ⟨i, _, j, _, atX, atY, right, bottom⟩
    omega

end Szczupak.FrameBytes
