import StagedScript.Run.Item
import StagedScript.Text.LetterCase
import StagedScript.Text.Search

/-!
# Calling methods
-/

namespace StagedScript.Run

/-- Fails because a callable has no parameter of a name. -/
def unknownKeyword {α : Type} (callee name : String) : Run α :=
  failTyping (.unknownKeyword callee name)

/-- Checks that there are no arguments by name. -/
def noKeywords (callee : String) (named : Table Value) : Run Unit :=
  match named.keys with
  | [] => return ()
  | key :: _ => unknownKeyword callee key

/-- Checks how many arguments by place there are. -/
def checkCount (callee : String) (args : List Value) (least most : Nat) : Run Unit :=
  if args.length < least then fail (.arity callee least args.length)
  else if most < args.length then fail (.arity callee most args.length)
  else return ()

/-- The text that an argument is. -/
def textArgument (callee : String) (v : Value) : Run String := do
  match v.str? with
  | some text => return text
  | none => failTyping (.argumentNotText callee (← typeName v))

/-- The argument by place with an index. -/
def argument (args : List Value) (i : Nat) : Value := args[i]?.getD .none_

/-- Calls a method of a list. -/
def callListMethod (r : ListRef) (op : ListMethod) (args : List Value) : Run Value := do
  match op with
  | .append =>
    checkCount op.name args 1 1
    modify (·.modifyList r (· ++ args.toArray))
    return .none_
  | .extend =>
    checkCount op.name args 1 1
    let more ← items (argument args 0)
    modify (·.modifyList r (· ++ more.toArray))
    return .none_
  | .pop =>
    checkCount op.name args 0 1
    let i ← place (.list r) (← view (·.listItems r)).size (args.headD (.int (-1)))
    let v ← view fun s => (s.listItems r)[i]?.getD .none_
    modify (·.modifyList r (·.eraseIdxIfInBounds i))
    return v

/-- Calls a method of a dict. -/
def callDictMethod (r : DictRef) (op : DictMethod) (args : List Value) : Run Value := do
  match op with
  | .items =>
    checkCount op.name args 0 0
    let entries ← view (·.dictEntries r)
    newList (← entries.entries.mapM fun (key, v) => do newTuple [← newStr key, v])
  | .keys =>
    checkCount op.name args 0 0
    newList (← newStrs (← view (·.dictEntries r)).keys)
  | .values =>
    checkCount op.name args 0 0
    newList (← view (·.dictEntries r)).values
  | .get =>
    checkCount op.name args 1 2
    let key ← dictKey (argument args 0)
    return ((← view (·.dictEntries r)).get? key).getD (argument args 1)

/-- The pieces of a text between separators, or between stretches of white space if the separator
is `None`. -/
def pieces (text : String) (separator : Value) : Run (List (List Char)) := do
  match separator with
  | .none_ => return Text.words text.toList
  | separator =>
    let pattern ← textArgument TextMethod.split.name separator
    if pattern.isEmpty then failDomain .emptySeparator
    else return Text.split pattern.toList text.toList

/-- Calls a method of a text. -/
def callTextMethod (text : String) (op : TextMethod) (args : List Value) : Run Value := do
  match op with
  | .join =>
    checkCount op.name args 1 1
    let parts ← (← items (argument args 0)).mapM (textArgument op.name)
    newStr (text.intercalate parts)
  | .split =>
    checkCount op.name args 0 1
    newList (← newStrs ((← pieces text (argument args 0)).map String.ofList))
  | .startsWith =>
    checkCount op.name args 1 1
    let start ← textArgument op.name (argument args 0)
    return .bool (start.toList.isPrefixOf text.toList)
  | .replace =>
    checkCount op.name args 2 2
    let pattern ← textArgument op.name (argument args 0)
    let replacement ← textArgument op.name (argument args 1)
    newStr (String.ofList (Text.replace pattern.toList replacement.toList text.toList))
  | .upper =>
    checkCount op.name args 0 0
    newStr (String.ofList (Text.upper text.toList))
  | .lower =>
    checkCount op.name args 0 0
    newStr (String.ofList (Text.lower text.toList))

/-- Calls a method of a record. -/
def callRecordMethod (r : RecordRef) (op : RecordMethod) (args : Arguments) : Run Value := do
  checkCount op.name args.positional 0 0
  match op with
  | .asDict =>
    noKeywords op.name args.named
    newDict (← fieldTable r)
  | .replace =>
    replaceFields r args.named
    return .record r

/-- Calls a method of a record type. -/
def callRecordTypeMethod (r : RecordTypeRef) (op : RecordTypeMethod) (args : List Value) :
    Run Value := do
  match op with
  | .make =>
    checkCount op.name args 1 1
    return .record (← recordOf r (← items (argument args 0)))

/-- Calls a method.  Only the methods of records take arguments by name. -/
def callMethod (m : Method) (args : Arguments) : Run Value := do
  match m with
  | .record r op => callRecordMethod r op args
  | .list r op =>
    noKeywords op.name args.named
    callListMethod r op args.positional
  | .dict r op =>
    noKeywords op.name args.named
    callDictMethod r op args.positional
  | .text text op =>
    noKeywords op.name args.named
    callTextMethod text op args.positional
  | .recordType r op =>
    noKeywords op.name args.named
    callRecordTypeMethod r op args.positional

end StagedScript.Run
