import Tale.Library.Chance
import Tale.Library.Check
import Tale.Library.Contents
import Tale.Library.Drawing
import Tale.Library.Lists
import Tale.Library.Numbers
import Tale.Library.Reader
import Tale.Library.Texts

/-!
# Calling the library

What each function of the library does to its arguments and the world. Those that make their answer
of their arguments alone do nothing to it.
-/

namespace Tale

/-- The answer of a function that does not look at the world. -/
def Library.plain (result : Except Refusal Value) : Library.Answer :=
  ExceptT.mk (pure result)

open Library in
/-- Runs a function of the library. -/
def Native.run (m : Machine) (f : Native) (args : List Value) : Library.Answer :=
  match f with
  | contentAddParagraph => Contents.paragraph args
  | contentAddImage => Contents.image args
  | contentAddUnorderedList => Contents.items "ul" args
  | contentAddOrderedList => Contents.items "ol" args
  | contentAddHeader => Contents.header args
  | contentAddTable => Contents.table args
  | contentAddHorizontalRule => Contents.rule args
  | print => plain (.ok .null)
  | assert => plain (Check.assert args)
  | assertError => Check.assertError m.call args
  | timeStart => Check.timeStart args
  | timeEnd => Check.timeEnd args
  | listSet => plain (Lists.set args)
  | listForEach => Lists.forEach m.call args
  | listMap => Lists.map m.call args
  | listCreateFilled => plain (Lists.createFilled args)
  | listChunk => plain (Lists.chunk args)
  | listFilter => Lists.filter m.call args
  | listSplice => plain (Lists.splice args)
  | listSlice => plain (Lists.slice args)
  | listLength => plain (Lists.length args)
  | listIndexOf => plain (Lists.indexOf args)
  | listIncludes => plain (Lists.includes args)
  | listFindIndex => Lists.findIndex m.call args
  | mathMin => plain (Numbers.min args)
  | mathMax => plain (Numbers.max args)
  | mathFloor => plain (Numbers.floor args)
  | mathCeil => plain (Numbers.ceil args)
  | random => Chance.between args
  | randomInt => Chance.whole args
  | randomBoolean => Chance.boolean args
  | randomBiased => Chance.biased m.turns args
  | readerSetPinned => Reader.setPinned args
  | readerUnsetPinned => Reader.unset (Reader.pin none) args
  | readerSetStateDesc => Reader.setStateText args
  | readerUnsetStateDesc => Reader.unset (Reader.describe none) args
  | stringLength => plain (Texts.length args)
  | stringFormatNumberFixed => plain (Texts.formatFixed args)
  | stringFormatNumberPrecision => plain (Texts.formatPrecision args)
  | stringSplit => plain (Texts.split args)
  | stringSubByLength => plain (Texts.subByLength args)
  | stringSubByIndex => plain (Texts.subByIndex args)
  | canvasCreate => Drawing.create args
  | canvasOutput => Drawing.output args
  | canvasClear => Drawing.clear args
  | canvasPutImage => Drawing.putImage args
  | canvasPutImagePart => Drawing.putImagePart args
  | canvasSetFont => Drawing.setFont args
  | canvasSetFillStyle => Drawing.style .setFillStyle args
  | canvasFillText => Drawing.text .fillText args
  | canvasFillRect => Drawing.fillRect args
  | canvasSetStrokeStyle => Drawing.style .setStrokeStyle args
  | canvasSetLineWidth => Drawing.setLineWidth args
  | canvasStrokeText => Drawing.text .strokeText args

end Tale
