import Mavicona.Extract.PlainText

/-!
# Pictures

Reference: `extract/png_handler.cpp` (`displayPNGInfo`, `PNGHandler::handle`), `extract/parse_observer.h`
(`addMeta`).

The handler adds what `lodepng` finds out about a picture as metadata. Its loop over the international
texts takes the keys and the strings of the other ones, and reads past these where there are more
international texts.
-/

namespace Mavicona.Extract

open Bytes Numeral
open Mavicona.Cynder (MetaEntry)

/-- `std::to_string` of a number that is passed as an `int`. -/
def intText (n : ℕ) : Bytes :=
  let n := n % 2 ^ 32
  if n < 2 ^ 31 then print 10 n else 45 :: print 10 (2 ^ 32 - n)

/-- `addMeta` of a number. -/
def addMetaInt (key : String) (n : ℕ) (metas : List MetaEntry) : List MetaEntry :=
  addMeta key (intText n) metas

/-- A number that is added unless it is zero. -/
def addMetaNonzero (key : String) (n : ℕ) (metas : List MetaEntry) : List MetaEntry :=
  if n ≠ 0 then addMetaInt key n metas else metas

/-- `LodePNGTime`. -/
structure PngTime where
  year : ℕ
  month : ℕ
  day : ℕ
  hour : ℕ
  minute : ℕ
  second : ℕ

/-- The text of a time. -/
def PngTime.text (t : PngTime) : Bytes :=
  print 10 t.year ++ ascii "-" ++ print 10 t.month ++ ascii "-" ++ print 10 t.day ++ ascii " " ++
    print 10 t.hour ++ ascii ":" ++ print 10 t.minute ++ ascii ":" ++ print 10 t.second

/-- `LodePNGInfo`, with what `lodepng` says of its color mode and the size of the picture. -/
structure PngInfo where
  width : ℕ
  height : ℕ
  compressionMethod : ℕ
  filterMethod : ℕ
  interlaceMethod : ℕ
  colortype : ℕ
  bitdepth : ℕ
  bpp : ℕ
  channels : ℕ
  isGreyscaleType : ℕ
  canHaveAlpha : ℕ
  palettesize : ℕ
  keyDefined : ℕ
  keyR : ℕ
  keyG : ℕ
  keyB : ℕ
  /-- The keys and strings of `text_num` texts. -/
  texts : List (Bytes × Bytes)
  itextNum : ℕ
  /-- `time`, if `time_defined`. -/
  time : Option PngTime
  /-- `phys_x`, `phys_y` and `phys_unit`, if `phys_defined`. -/
  phys : Option (ℕ × ℕ × ℕ)

/-- A text that is added under its own key. -/
def addText (metas : List MetaEntry) (text : Bytes × Bytes) : List MetaEntry :=
  metas ++ [⟨ascii "image_" ++ text.1, some text.2, []⟩]

/-- `displayPNGInfo`, unless it reads past the texts. -/
def displayPNGInfo (info : PngInfo) (metas : List MetaEntry) : Option (List MetaEntry) :=
  let metas := addMetaNonzero "image_compression_method" info.compressionMethod metas
  let metas := addMetaNonzero "image_filter_method" info.filterMethod metas
  let metas := addMetaNonzero "image_interlace_method" info.interlaceMethod metas
  let metas := addMetaNonzero "image_colortype" info.colortype metas
  let metas := addMetaNonzero "image_bitdepth" info.bitdepth metas
  let metas := addMetaNonzero "image_bpp" info.bpp metas
  let metas := addMetaNonzero "image_channels" info.channels metas
  let metas := addMetaNonzero "image_greyscale" info.isGreyscaleType metas
  let metas := addMetaNonzero "image_allow_alpha" info.canHaveAlpha metas
  let metas := addMetaNonzero "image_palette_size" info.palettesize metas
  let metas :=
    if info.keyDefined ≠ 0 then
      addMetaInt "image_color_key_b" info.keyB (addMetaInt "image_color_key_g" info.keyG
        (addMetaInt "image_color_key_r" info.keyR (addMetaInt "image_color_key" info.keyDefined metas)))
    else metas
  let metas := info.texts.foldl addText metas
  if info.texts.length < info.itextNum then none
  else
    let metas := (info.texts.take info.itextNum).foldl addText metas
    let metas := (info.time.map fun t => addMeta "image_timestamp" t.text metas).getD metas
    some ((info.phys.map fun (x, y, unit) => addMetaInt "image_physics_unit" unit
      (addMetaInt "image_physics_y" y (addMetaInt "image_physics_x" x metas))).getD metas)

/-- `PNGHandler::handle`, for what `lodepng::decode` says of a payload; the metadata, if it returns. -/
def pngHandle (decode : Bytes → Option PngInfo) (payload : Bytes) : Option (List MetaEntry) :=
  match decode payload with
  | none => some []
  | some info =>
    displayPNGInfo info (addMetaInt "image_pixels" (info.width * info.height)
      (addMetaInt "image_height" info.height (addMetaInt "image_width" info.width [])))

theorem displayPNGInfo_isSome_iff {info : PngInfo} {metas : List MetaEntry} :
    (displayPNGInfo info metas).isSome ↔ info.itextNum ≤ info.texts.length := by
  rw [displayPNGInfo]
  by_cases htexts : info.texts.length < info.itextNum
  · simp only [if_pos htexts]
    exact iff_of_false Bool.false_ne_true (not_le.mpr htexts)
  · simp only [if_neg htexts]
    exact iff_of_true rfl (not_lt.mp htexts)

/-- The handler returns unless a picture has more international texts than others. -/
theorem pngHandle_isSome_iff {decode : Bytes → Option PngInfo} {payload : Bytes} :
    (pngHandle decode payload).isSome ↔
      ∀ info, decode payload = some info → info.itextNum ≤ info.texts.length := by
  rw [pngHandle]
  cases hdecode : decode payload with
  | none => exact iff_of_true rfl fun info hinfo => absurd hinfo (Option.some_ne_none info).symm
  | some info =>
    dsimp only
    rw [displayPNGInfo_isSome_iff]
    exact ⟨fun h info' hinfo => Option.some.inj hinfo ▸ h, fun h => h info rfl⟩

end Mavicona.Extract
