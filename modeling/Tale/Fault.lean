import Tale.Value.Describe

/-!
# Faults

Why the telling of a story fails. `Refusal` is why a function of the library does not take its
arguments, `CallError` why a call does not come about, and `Fault.Cause` why an expression has no
value. The wording of each stands in its `text`.

A fault also says where it arose, and its trail the calls and sections it passed on its way out.
-/

namespace Tale

/-- What leaves a block, a function or a loop. -/
inductive Signal
  | leave (register : Register)
  | continue
  deriving DecidableEq, Repr, Inhabited

def Signal.name : Signal → String
  | .leave r => r.name
  | .continue => "continue"

/-- The sizes of a canvas. -/
inductive Dimension
  | width
  | height
  deriving DecidableEq, Repr, Inhabited

def Dimension.name : Dimension → String
  | width => "Width"
  | height => "Height"

mutual

inductive CallError
  /-- An argument without default value is missing. -/
  | omitted (index : Nat)
  | argument (index : Nat) (types : List ValueType) (value : Value)
  | native (native : Native) (refusal : Refusal)

inductive Refusal
  | tooFew (least received : Nat)
  | tooMany (most received : Nat)
  | argument (index : Nat) (type : ValueType) (value : Value)
  /-- The function applied to the elements of a list cannot be called with one of them. -/
  | element (index : Nat) (error : CallError)
  | predicate (index : Nat) (value : Value)
  | headerLevel (level : Float)
  | rowLength (row expected received : Nat)
  | cell (row column : Nat) (value : Value)
  | assertion
  | noError
  | timerExists (name : String)
  | timerUnknown (name : String)
  | indexNotWhole (index : Float)
  | indexNegative (index : Float)
  | indexBeyond (index : Float) (length : Nat)
  | lengthNotWhole (length : Float)
  | lengthNegative (length : Float)
  | lengthTooLarge (length : Float)
  | chunkSize (size : Float)
  | startNotWhole (start : Float)
  | startBeyond (start : Float) (length : Nat)
  | endNotWhole (stop : Float)
  | endBeyond (stop : Float) (length : Nat)
  | endBeforeStart (start stop : Nat)
  | spliceNotWhole
  | spliceNegative
  | spliceBeyond
  | emptyRange
  | bias
  | digits (least : Nat) (digits : Float)
  | textStart (start : Float)
  | textStartBeyond (start : Float) (length : Nat)
  | textLength (length : Float)
  | textLengthBeyond (start : Nat) (length : Float) (size : Nat)
  | textEnd (stop : Float)
  | textEndBeyond (start : Nat) (stop : Float) (size : Nat)
  | canvasExists (id : String)
  | canvasUnknown (id : String)
  | dimensionNotWhole (dimension : Dimension) (size : Float)
  | dimensionNotPositive (dimension : Dimension) (size : Float)
  | hAlign (align : String)
  | vAlign (align : String)
  | sizeIncomplete
  | destinationIncomplete

end

/-- Type names without blanks between them. -/
def typeNames (separator : String) (types : List ValueType) : String :=
  separator.intercalate (types.map ValueType.name)

open Text (decimal inQuotes)

mutual

def CallError.text : CallError → String
  | .omitted i =>
    "The argument with index = " ++ decimal i ++ " of invocation is omitted, but it does not "
      ++ "have a default value and it does not allow null values"
  | .argument i types v =>
    "The argument with index = " ++ decimal i ++ " of invocation has wrong type. Expected: "
      ++ typeNames "," types ++ ", received: " ++ v.describe
  | .native f r =>
    "Failed to call native function " ++ inQuotes f.name ++ ". Reason: " ++ r.text

def Refusal.text : Refusal → String
  | .tooFew least received =>
    "Too few arguments are provided. Minimum number of arguments: " ++ decimal least
      ++ ", received: " ++ decimal received
  | .tooMany most received =>
    "Too many arguments are provided. Maximum number of arguments: " ++ decimal most
      ++ ", received: " ++ decimal received
  | .argument i type v =>
    "The argument with index = " ++ decimal i ++ " of invocation has wrong type. Expected: "
      ++ type.name ++ ", received: " ++ v.describe
  | .element i error =>
    "Failed to apply function to the element with index = " ++ decimal i ++ " of list: "
      ++ error.text
  | .predicate i v =>
    "Predicate is expected to return booleans, but " ++ v.describe
      ++ " is returned for element with index = " ++ decimal i
  | .headerLevel level => "There is no header with level " ++ Decimal.text level
  | .rowLength row expected received =>
    "Row with index = " ++ decimal row ++ " has incorrect number of items. Expecting "
      ++ decimal expected ++ ", received " ++ decimal received
  | .cell row column v =>
    "Item in row with index = " ++ decimal row ++ ", and column with index = " ++ decimal column
      ++ " is expected to be a string, received: " ++ v.describe
  | .assertion => "Assertion failed"
  | .noError => "Assertion failed, no error is thrown"
  | .timerExists name => "Timer " ++ inQuotes name ++ " already existed."
  | .timerUnknown name => "Cannot find timer " ++ inQuotes name ++ "."
  | .indexNotWhole i => "Index (" ++ Decimal.text i ++ ") has to be an integer"
  | .indexNegative i => "Index (" ++ Decimal.text i ++ ") cannot be negative"
  | .indexBeyond i length =>
    "Index (" ++ Decimal.text i ++ ") out of bounds. List length is " ++ decimal length
  | .lengthNotWhole n => "Length (" ++ Decimal.text n ++ ") has to be an integer."
  | .lengthNegative n => "Length (" ++ Decimal.text n ++ ") cannot be negative."
  | .lengthTooLarge n => "Length (" ++ Decimal.text n ++ ") is too large."
  | .chunkSize n => "Chunk size (" ++ Decimal.text n ++ ") has to be a positive integer."
  | .startNotWhole i => "Start index must be an integer, provided: " ++ Decimal.text i
  | .startBeyond i length =>
    "Start index must be in the bounds of the list given (0 - " ++ decimal length
      ++ "), provided: " ++ Decimal.text i
  | .endNotWhole i => "End index must be an integer, provided: " ++ Decimal.text i
  | .endBeyond i length =>
    "End index must be in the bounds of the list given (0 - " ++ decimal length
      ++ "), provided: " ++ Decimal.text i
  | .endBeforeStart start stop =>
    "End index must be larger or equal to start index. Provided start = " ++ decimal start
      ++ ", end = " ++ decimal stop
  | .spliceNotWhole => "Length must be an integer."
  | .spliceNegative => "Length must be nonnegative."
  | .spliceBeyond => "Length is too large and causes overflow."
  | .emptyRange => "Low cannot be larger than or equal to high."
  | .bias => "Bias has to be between low and high."
  | .digits least n =>
    "Digits must be an integer between " ++ decimal least ++ " and 100, received: "
      ++ Decimal.text n
  | .textStart i => "Start index must be an nonnegative integer, received: " ++ Decimal.text i
  | .textStartBeyond i length =>
    "Start cannot be larger than str length. startIndex=" ++ Decimal.text i ++ ", str length="
      ++ decimal length
  | .textLength n => "Length must be an nonnegative integer, received: " ++ Decimal.text n
  | .textLengthBeyond start length size =>
    "Index out of bounds. startIndex=" ++ decimal start ++ ", length=" ++ Decimal.text length
      ++ ", str length=" ++ decimal size ++ "."
  | .textEnd i => "End index must be an nonnegative integer, received: " ++ Decimal.text i
  | .textEndBeyond start stop size =>
    "End index cannot be smaller than start index nor larger than the length of str. endIndex="
      ++ Decimal.text stop ++ ", startIndex=" ++ decimal start ++ ", str length=" ++ decimal size
  | .canvasExists id => "Canvas with id=" ++ inQuotes id ++ " already exists"
  | .canvasUnknown id => "Canvas with id=" ++ inQuotes id ++ " does not exist."
  | .dimensionNotWhole d x => d.name ++ " (" ++ Decimal.text x ++ ") has to be an integer"
  | .dimensionNotPositive d x => d.name ++ " (" ++ Decimal.text x ++ ") must be positive"
  | .hAlign s => "Unknown text hAlign: " ++ s
  | .vAlign s => "Unknown text vAlign: " ++ s
  | .sizeIncomplete => "Width and height must be provided at the same time."
  | .destinationIncomplete => "destWidth and destHeight must be provided at the same time."

end

namespace Fault

inductive Cause
  | unknownVariable (name : String)
  | unknownRegister (register : Register)
  | unknownSection (name : String)
  /-- A signal that nothing catches. -/
  | uncaught (signal : Signal)
  | call (error : CallError)
  /-- A call that failed outside of any expression. -/
  | strayCall (error : CallError)
  | pinnedCall (pinned : Function) (error : CallError)
  | actionCall (error : CallError)
  | assigned (name : String) (types : List ValueType) (value : Value)
  | declared (name : String) (types : List ValueType) (value : Value)
  | noInitialValue (bound : TypeBound)
  | conditional (value : Value)
  | condition (value : Value)
  | loopCondition (value : Value)
  | selection (value : Value)
  | selectionMember (index : Nat) (value : Value)
  | choiceText (value : Value)
  | choiceAction (value : Value)
  | spread (value : Value)
  | switchPattern (value : Value)
  | noCase
  | operand (op : UnaryOp) (value : Value)
  | operands (op : BinaryOp) (left right : Value)
  | nullFallback
  | logical (op : BinaryOp) (side : Side) (value : Value)
  | target (op : BinaryOp)
  | updated (op : BinaryOp) (type : ValueType)
  | update (op : BinaryOp) (type : ValueType) (value : Value)
  | indexed (op : BinaryOp) (value : Value)
  | index (op : BinaryOp) (value : Value)
  | noElement (op : BinaryOp) (index : Float) (elements : List Value)
  | invocation (op : BinaryOp) (side : Side) (type : ValueType) (value : Value)
  | application (op : BinaryOp) (side : Side) (type : ValueType) (value : Value)
  | next (value : Value)
  | actionResult (value : Value)

/-- A side at the head of a sentence. -/
def sideOf : Side → String
  | .left => "Left side of "
  | .right => "Right side of "

def binaryOperator (op : BinaryOp) : String :=
  "binary operator " ++ inQuotes op.symbol

/-- How a document that was tampered with is spoken of. -/
def tampered (likely : String) : String :=
  ". This is " ++ likely ++ " likely caused by WTCD compiler's error or the compiled output has "
    ++ "been modified"

def allowsNull (op : BinaryOp) : Bool :=
  op = .nullableIndex || op = .nullableIndexOrNull

def invocationKind : BinaryOp → String
  | .pipeline => "pipeline"
  | .reverseInvoke => "reverse"
  | _ => "function"

def Cause.text : Cause → String
  | unknownVariable name =>
    "Cannot resolve variable reference " ++ inQuotes name ++ tampered "most"
  | unknownRegister r =>
    "Cannot resolve register reference " ++ inQuotes r.name ++ tampered "mostly"
  | unknownSection name => "Unknown section " ++ inQuotes name
  | uncaught s => "Uncaught BubbleSignal with type " ++ inQuotes s.name ++ "."
  | call e => e.text
  | strayCall e => e.text
  | pinnedCall f e => "Failed to invoke the pinned function (" ++ f.describe ++ "): " ++ e.text
  | actionCall e => "Failed to evaluate the function action for this choice: " ++ e.text
  | assigned name types v =>
    "Cannot assign value (" ++ v.describe ++ ") to variable " ++ inQuotes name ++ ". "
      ++ inQuotes name ++ " can only store these types: " ++ typeNames ", " types
  | declared name types v =>
    "The type of variable " ++ name ++ " is " ++ typeNames "," types ++ ", thus cannot hold "
      ++ v.describe
  | noInitialValue bound =>
    "Variable type " ++ inQuotes bound.describe ++ " does not have a default initial value"
  | conditional v =>
    "First argument of a conditional expression is expected to be a boolean, received: "
      ++ v.describe
  | condition v =>
    "The condition of an if expression is expected to be a boolean. Received: " ++ v.describe
  | loopCondition v =>
    "Condition expression of a while loop is expected to return a boolean. Received: "
      ++ v.describe
  | selection v =>
    "Expression after selection is expected to be a list of choices, received: " ++ v.describe
  | selectionMember i v =>
    "Choice at index " ++ decimal i ++ " is expected to be a choice, received: " ++ v.describe
  | choiceText v =>
    "First argument of choice is expected to be a string, received: " ++ v.describe
  | choiceAction v =>
    "Second argument of choice is expected to be an action, a function, or null, received: "
      ++ v.describe
  | spread v =>
    "Spread operator \"...\" can only be used before a list, received: " ++ v.describe
  | switchPattern v =>
    "Value to match for each case is expected to be a list, received: " ++ v.describe
  | noCase => "None of the cases matched and no default case is provided"
  | operand op v =>
    "Unary operator " ++ inQuotes op.symbol ++ " can only be applied to "
      ++ (match op with | .negate => "a number" | .not => "a boolean")
      ++ ", received: " ++ v.describe
  | operands op l r =>
    "Binary operator " ++ inQuotes op.symbol ++ " can only be applied to "
      ++ (if op = .add then "two strings or two numbers" else "two numbers")
      ++ ", received: " ++ l.describe ++ " (left) and " ++ r.describe ++ " (right)"
  | nullFallback =>
    "Right side of binary operator \"?!\" cannot be null. If returning null is desired in this "
      ++ "case, please use \"??\" instead"
  | logical op side v =>
    sideOf side ++ binaryOperator op ++ " has to be a boolean. Received " ++ v.describe
  | target op => sideOf .left ++ binaryOperator op ++ " has to be a variable reference"
  | updated op type =>
    sideOf .left ++ binaryOperator op ++ " has to be a variable of type "
      ++ (if op = .addAssign then "number or string" else "number")
      ++ ", actual type: " ++ type.name
  | update op type v =>
    sideOf .right ++ binaryOperator op
      ++ (if op = .addAssign then " has to  be a " else "  has to be a ")
      ++ type.name ++ ", received: " ++ v.describe
  | indexed op v =>
    sideOf .left ++ binaryOperator op ++ " is expected to be "
      ++ (if allowsNull op then "a list or null" else "a list") ++ ". Received: " ++ v.describe
  | index op v =>
    sideOf .right ++ binaryOperator op ++ " is expected to be an integer. Received: " ++ v.describe
  | noElement op i vs =>
    "List does not have an element at " ++ Decimal.text i ++ ". If return null is desired, use "
      ++ inQuotes (if allowsNull op then "?.?" else ".?") ++ " instead. List contents: "
      ++ (Value.list vs).describe
  | invocation op side type v =>
    sideOf side ++ invocationKind op ++ " invocation " ++ inQuotes op.symbol
      ++ " is expected to be a " ++ type.name ++ ", received: " ++ v.describe
  | application op side type v =>
    sideOf side ++ binaryOperator op ++ " is expected to be a " ++ type.name ++ ". Received: "
      ++ v.describe
  | next v =>
    "Expression after then is expected to return an action, or null, received: " ++ v.describe
  | actionResult v =>
    "Value returned by a function action is expected to be an action or null. Received: "
      ++ v.describe

/-- Whether a fault of this cause arises at a place of the document. -/
def Cause.isPlaced : Cause → Bool
  | unknownVariable _ | unknownRegister _ | unknownSection _ | uncaught _ | strayCall _
  | pinnedCall .. => false
  | _ => true

/-- The kind of a fault. A document as it was read cannot cause an internal one. -/
def Cause.code : Cause → String
  | unknownVariable _ | unknownRegister _ => "WTCD_INTERNAL"
  | strayCall _ => "WTCD_NATIVE"
  | _ => "WTCD_RUNTIME"

/-- What a fault passed on its way out. -/
inductive Passage
  | invocation (op : BinaryOp)
  | element (native : Native) (index : Nat)
  | functionAction
  | pinned (pinned : Function)
  | «section» (name : String)
  | initialization

def Passage.text : Passage → String
  | .invocation op => inQuotes op.symbol ++ " invocation"
  | .element f i => f.name ++ " (index = " ++ decimal i ++ ")"
  | .functionAction => "Function action"
  | .pinned f => "Pinned function (" ++ f.describe ++ ")"
  | .section name => "section " ++ inQuotes name
  | .initialization => "initialization"

structure Entry where
  passage : Passage
  location : Option Location

/-- A line of a trail. -/
def line (info : String) (location : Option Location) : String :=
  "    at " ++ info ++ (match location with | some l => ":" ++ l.text | none => "")

def Entry.text (e : Entry) : String :=
  line e.passage.text e.location

end Fault

structure Fault where
  cause : Fault.Cause
  location : Option Location
  /-- Innermost first. -/
  trail : List Fault.Entry := []

namespace Fault

def code (f : Fault) : String :=
  f.cause.code

def message (f : Fault) : String :=
  f.cause.text ++ " at "
    ++ (match f.location with
      | some l => l.text ++ "."
      | none =>
        if f.cause.isPlaced then
          "unknown location. (Try recompile in debug mode to enable source map)"
        else "unknown location. (Location info is not available for this type of error)")

def trailLines (f : Fault) : List String :=
  f.trail.map Entry.text

/-- The message, and the trail in lines of their own. -/
def detail (f : Fault) : String :=
  "\n".intercalate (f.message :: f.trailLines)

/-- The fault after it passed something on its way out. -/
def passing (f : Fault) (passage : Passage) (location : Option Location) : Fault :=
  { f with trail := f.trail ++ [⟨passage, location⟩] }

end Fault

end Tale
