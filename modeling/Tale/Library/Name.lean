/-!
# The library's functions

Every document can call these functions by their names.
-/

namespace Tale

inductive Native
  | contentAddParagraph
  | contentAddImage
  | contentAddUnorderedList
  | contentAddOrderedList
  | contentAddHeader
  | contentAddTable
  | contentAddHorizontalRule
  | print
  | assert
  | assertError
  | timeStart
  | timeEnd
  | listSet
  | listForEach
  | listMap
  | listCreateFilled
  | listChunk
  | listFilter
  | listSplice
  | listSlice
  | listLength
  | listIndexOf
  | listIncludes
  | listFindIndex
  | mathMin
  | mathMax
  | mathFloor
  | mathCeil
  | random
  | randomInt
  | randomBoolean
  | randomBiased
  | readerSetPinned
  | readerUnsetPinned
  | readerSetStateDesc
  | readerUnsetStateDesc
  | stringLength
  | stringFormatNumberFixed
  | stringFormatNumberPrecision
  | stringSplit
  | stringSubByLength
  | stringSubByIndex
  | canvasCreate
  | canvasOutput
  | canvasClear
  | canvasPutImage
  | canvasPutImagePart
  | canvasSetFont
  | canvasSetFillStyle
  | canvasFillText
  | canvasFillRect
  | canvasSetStrokeStyle
  | canvasSetLineWidth
  | canvasStrokeText
  deriving DecidableEq, Repr, Inhabited

namespace Native

def name : Native → String
  | contentAddParagraph => "contentAddParagraph"
  | contentAddImage => "contentAddImage"
  | contentAddUnorderedList => "contentAddUnorderedList"
  | contentAddOrderedList => "contentAddOrderedList"
  | contentAddHeader => "contentAddHeader"
  | contentAddTable => "contentAddTable"
  | contentAddHorizontalRule => "contentAddHorizontalRule"
  | print => "print"
  | assert => "assert"
  | assertError => "assertError"
  | timeStart => "timeStart"
  | timeEnd => "timeEnd"
  | listSet => "listSet"
  | listForEach => "listForEach"
  | listMap => "listMap"
  | listCreateFilled => "listCreateFilled"
  | listChunk => "listChunk"
  | listFilter => "listFilter"
  | listSplice => "listSplice"
  | listSlice => "listSlice"
  | listLength => "listLength"
  | listIndexOf => "listIndexOf"
  | listIncludes => "listIncludes"
  | listFindIndex => "listFindIndex"
  | mathMin => "mathMin"
  | mathMax => "mathMax"
  | mathFloor => "mathFloor"
  | mathCeil => "mathCeil"
  | random => "random"
  | randomInt => "randomInt"
  | randomBoolean => "randomBoolean"
  | randomBiased => "randomBiased"
  | readerSetPinned => "readerSetPinned"
  | readerUnsetPinned => "readerUnsetPinned"
  | readerSetStateDesc => "readerSetStateDesc"
  | readerUnsetStateDesc => "readerUnsetStateDesc"
  | stringLength => "stringLength"
  | stringFormatNumberFixed => "stringFormatNumberFixed"
  | stringFormatNumberPrecision => "stringFormatNumberPrecision"
  | stringSplit => "stringSplit"
  | stringSubByLength => "stringSubByLength"
  | stringSubByIndex => "stringSubByIndex"
  | canvasCreate => "canvasCreate"
  | canvasOutput => "canvasOutput"
  | canvasClear => "canvasClear"
  | canvasPutImage => "canvasPutImage"
  | canvasPutImagePart => "canvasPutImagePart"
  | canvasSetFont => "canvasSetFont"
  | canvasSetFillStyle => "canvasSetFillStyle"
  | canvasFillText => "canvasFillText"
  | canvasFillRect => "canvasFillRect"
  | canvasSetStrokeStyle => "canvasSetStrokeStyle"
  | canvasSetLineWidth => "canvasSetLineWidth"
  | canvasStrokeText => "canvasStrokeText"

def all : List Native :=
  [.contentAddParagraph, .contentAddImage, .contentAddUnorderedList, .contentAddOrderedList,
    .contentAddHeader, .contentAddTable, .contentAddHorizontalRule, .print, .assert,
    .assertError, .timeStart, .timeEnd, .listSet, .listForEach, .listMap, .listCreateFilled,
    .listChunk, .listFilter, .listSplice, .listSlice, .listLength, .listIndexOf, .listIncludes,
    .listFindIndex, .mathMin, .mathMax, .mathFloor, .mathCeil, .random, .randomInt,
    .randomBoolean, .randomBiased, .readerSetPinned, .readerUnsetPinned, .readerSetStateDesc,
    .readerUnsetStateDesc, .stringLength, .stringFormatNumberFixed,
    .stringFormatNumberPrecision, .stringSplit, .stringSubByLength, .stringSubByIndex,
    .canvasCreate, .canvasOutput, .canvasClear, .canvasPutImage, .canvasPutImagePart,
    .canvasSetFont, .canvasSetFillStyle, .canvasFillText, .canvasFillRect,
    .canvasSetStrokeStyle, .canvasSetLineWidth, .canvasStrokeText]

end Native

namespace Library

/-- The names of all functions of the library. -/
def names : List String :=
  Native.all.map Native.name

end Library

end Tale
