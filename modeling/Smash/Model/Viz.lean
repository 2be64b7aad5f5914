import Mathlib.Data.List.Infix
import Smash.Lib.Json
import Smash.Lib.Scan
import Smash.Model.Types

/-!
# The trace visualizer (`tools/viz.py`)

`textTimeline` and `htmlTimeline` give the lines that the two functions print, or the exception that ends
them. Two things of Python are narrower here. A value that is used as a number or as a string and is neither
counts as a `TypeError`, as it is for the operations that the script applies; and `json.load` reads the
fragment of JSON that `Json.parse` reads.
-/

set_option autoImplicit false

namespace Smash

/-! ## Python -/

/-- The exceptions that can end the script. -/
inductive PyError where
  | jsonDecodeError
  | keyError (key : String)
  | attributeError
  | typeError
  | indexError

abbrev Py := Except PyError

/-- `d[key]`. -/
def getItem (d : Json) (key : String) : Py Json :=
  match d with
  | .obj fields =>
    match Json.field? fields key with
    | some v => .ok v
    | none => .error (.keyError key)
  | _ => .error .typeError

/-- `d.get(key, default)`. -/
def dictGet (d : Json) (key : String) (dflt : Json) : Py Json :=
  match d with
  | .obj fields => .ok ((Json.field? fields key).getD dflt)
  | _ => .error .attributeError

/-- A value in a place where a number is needed, … -/
def asInt : Json → Py Int
  | .int n => .ok n
  | _ => .error .typeError

/-- … or a string. -/
def asStr : Json → Py String
  | .str s => .ok s
  | _ => .error .typeError

/-- What `for x in xs` runs over. -/
def iter : Json → Py (List Json)
  | .arr items => .ok items
  | .obj fields => .ok (fields.map fun kv => .str kv.1)
  | .str s => .ok (s.toList.map fun c => .str (String.ofList [c]))
  | .int _ => .error .typeError

mutual

/-- `repr(v)`. -/
def pyRepr : Json → String
  | .int n => toString n
  | .str s => "'" ++ s ++ "'"
  | .arr items => "[" ++ reprItems items ++ "]"
  | .obj fields => "\x7b" ++ reprFields fields ++ "\x7d"

def reprItems : List Json → String
  | [] => ""
  | [v] => pyRepr v
  | v :: vs => pyRepr v ++ ", " ++ reprItems vs

def reprFields : List (String × Json) → String
  | [] => ""
  | [(k, v)] => "'" ++ k ++ "': " ++ pyRepr v
  | (k, v) :: kvs => "'" ++ k ++ "': " ++ pyRepr v ++ ", " ++ reprFields kvs

end

/-- `str(v)`, which is also what `{v}` stands for in an f-string. -/
def pyStr : Json → String
  | .str s => s
  | v => pyRepr v

/-- `v != ""`. -/
def notEmpty : Json → Bool
  | .str s => s ≠ ""
  | _ => true

/-- `needle in s`. -/
def contains (s needle : String) : Bool := needle.toList <:+: s.toList

def spaces (n : Nat) : String := String.ofList (List.replicate n ' ')

/-- `{s:<w}`, … -/
def ljust (w : Nat) (s : String) : String := s ++ spaces (w - s.length)

/-- … and `{s:>w}`. -/
def rjust (w : Nat) (s : String) : String := spaces (w - s.length) ++ s

/-- `{v:w}`: a number to the right, a string to the left. -/
def formatWidth (w : Nat) : Json → Py String
  | .int n => .ok (rjust w (toString n))
  | .str s => .ok (ljust w s)
  | _ => .error .typeError

/-! ## The two timelines -/

/-- `COLORS`. -/
def colors : List String :=
  ["#e6194b", "#3cb44b", "#4363d8", "#f58231", "#911eb4", "#42d4f4", "#f032e6", "#bfef45"]

/-- `load_trace`, of the text of the file. -/
def loadTrace (text : String) : Py Json :=
  match Json.parse text with
  | some data => .ok data
  | none => .error .jsonDecodeError

/-- `max((e["tid"] for e in events if e["tid"] >= 0), default=0)`. -/
def maxTid (events : List Json) : Py Int := do
  let tids ← events.mapM fun e => do asInt (← getItem e "tid")
  return foldMax 0 (tids.filter (0 ≤ ·))

/-- `tid = e["tid"]`, and zero for a negative one. -/
def rowTid (e : Json) : Py Int := do
  let tid ← asInt (← getItem e "tid")
  return if tid < 0 then 0 else tid

/-- The `if` chain over the type in `text_timeline`: the first name that occurs in it decides. -/
def shortNames : List (String × String) :=
  [("LOCK_ACQ", "LACQ"), ("LOCK_ATT", "LATT"), ("LOCK_BLK", "LBLK"), ("UNLOCK", "UNLK"), ("SIGNAL", "SIG"),
    ("WAIT_BLK", "WBLK"), ("WAIT", "WAIT"), ("WAKEUP", "WAKE"), ("YIELD", "YLD"), ("DONE", "DONE"),
    ("DEAD", "DEAD"), ("SCHED", ">>>"), ("INVAR", "FAIL")]

/-- One turn of the loop of `text_timeline`. -/
def textRow (maxTid : Int) (e : Json) : Py String := do
  let tid ← rowTid e
  let cols := List.replicate (maxTid + 1).toNat "     "
  let type ← asStr (← getItem e "type")
  let short := ((shortNames.find? fun p => contains type p.1).map (·.2)).getD type
  let res ← dictGet e "resource" (.str "")
  let short := if notEmpty res then short ++ pyStr res else short
  if cols.length ≤ tid.toNat then .error .indexError
  else
    let step ← formatWidth 4 (← getItem e "step")
    return step ++ "  | " ++ " | ".intercalate (cols.set tid.toNat (rjust 5 short))

/-- `text_timeline`. -/
def textTimeline (data : Json) : Py (List String) := do
  let events ← getItem data "events"
  let schedule ← dictGet data "schedule" (.arr [])
  let events ← iter events
  let maxTid ← maxTid events
  let header := "Step  | " ++
    " | ".intercalate ((upTo (maxTid + 1)).map fun t => "  T" ++ ljust 3 (toString t))
  let rows ← events.mapM (textRow maxTid)
  return ["Schedule: " ++ pyStr schedule, "", header, String.ofList (List.replicate header.length '-')] ++ rows

/-- The `if` chain of `html_timeline`, with the class and the label. -/
def htmlLabels : List (String × String × String) :=
  [("LOCK", " lock", "LOCK"), ("UNLOCK", " unlock", "UNLK"), ("WAIT", " wait", "WAIT"),
    ("SIGNAL", " signal", "SIG"), ("WAKEUP", " signal", "WAKE"), ("DEAD", " dead", "DEADLOCK"),
    ("DONE", " done", "DONE"), ("SCHED", " sched", ">>>"), ("INVAR", " dead", "FAIL")]

/-- One turn of the loop of `html_timeline`. -/
def htmlRow (maxTid : Int) (e : Json) : Py (List String) := do
  let tid ← rowTid e
  let type ← asStr (← getItem e "type")
  let found := (htmlLabels.find? fun p => contains type p.1).map (·.2)
  let cls := "evt" ++ (found.map (·.1)).getD ""
  let label := (found.map (·.2)).getD type
  let res ← dictGet e "resource" (.str "")
  let label := if notEmpty res then label ++ "(" ++ pyStr res ++ ")" else label
  let step ← getItem e "step"
  return ["<tr><td>" ++ pyStr step ++ "</td>"] ++
    ((upTo (maxTid + 1)).map fun t =>
      if t = tid then "<td><span class='" ++ cls ++ "'>" ++ label ++ "</span></td>" else "<td></td>") ++
    ["</tr>"]

/-- The lines in front of the table. -/
def htmlHead : List String :=
  ["<!DOCTYPE html><html><head>",
    "<style>",
    "body \x7b font-family: monospace; background: #1a1a2e; color: #eee; \x7d",
    "table \x7b border-collapse: collapse; margin: 20px; \x7d",
    "th, td \x7b border: 1px solid #333; padding: 4px 8px; text-align: center; min-width: 60px; \x7d",
    "th \x7b background: #16213e; \x7d",
    ".evt \x7b border-radius: 3px; padding: 2px 4px; font-size: 12px; \x7d",
    ".lock \x7b background: #e6194b; \x7d",
    ".unlock \x7b background: #3cb44b; \x7d",
    ".wait \x7b background: #f58231; \x7d",
    ".signal \x7b background: #4363d8; color: white; \x7d",
    ".dead \x7b background: #ff0000; font-weight: bold; \x7d",
    ".done \x7b background: #555; \x7d",
    ".sched \x7b color: #666; font-size: 10px; \x7d",
    "</style></head><body>",
    "<h2>SMASH Trace Timeline</h2>"]

/-- `html_timeline`. -/
def htmlTimeline (data : Json) : Py (List String) := do
  let events ← getItem data "events"
  let events ← iter events
  let maxTid ← maxTid events
  let schedule ← dictGet data "schedule" (.arr [])
  let rows ← events.mapM (htmlRow maxTid)
  return htmlHead ++ ["<p>Schedule: " ++ pyStr schedule ++ "</p>", "<table><tr><th>Step</th>"] ++
    ((upTo (maxTid + 1)).map fun t =>
      "<th style='color:" ++ colors.getD (t.toNat % colors.length) "" ++ "'>T" ++ toString t ++ "</th>") ++
    ["</tr>"] ++ rows.flatten ++ ["</table></body></html>"]

end Smash
