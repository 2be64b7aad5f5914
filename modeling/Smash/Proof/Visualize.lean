import Smash.Model.Dump
import Smash.Model.Viz
import Smash.Proof.SelfConsistent

/-!
# The writer and the reader of a trace

`parse_traceDumpJson`: what `smash_trace_dump_json` prints is read back as the trace's tree (`traceJson`),
field by field. In that tree an event of no thread has no `"tid"`, and both timelines ask every event for one
(`textTimeline_ok_iff`, `htmlTimeline_ok_iff`). The events of no thread are the explorer's: the one of a
scenario that it rejects and the one of a deadlock.
-/

set_option autoImplicit false

namespace Smash

open Json (Token Lexer Lexes Follows Reads Scalar)

variable {sc : Scenario}

/-! ## The tree of a trace -/

/-- The fields of an event. -/
def eventFields (e : TraceEvent) : List (String × Scalar) :=
  [("step", .int e.step), ("type", .str (eventName e.type))] ++
    (if 0 ≤ e.tid then [("tid", .int e.tid)] else []) ++
    (if 0 ≤ e.resourceId then [("resource", .int e.resourceId)] else []) ++
    (if e.arg ≠ 0 then [("arg", .int e.arg)] else [])

/-- What a trace is read back as. -/
def traceJson (trace : Trace) : Json :=
  .obj [("schedule", .arr (trace.schedule.toList.map .int)),
    ("events", .arr (trace.events.toList.map fun e => Json.record (eventFields e)))]

/-! ## The text -/

/-- A literal that begins with no digit, in front of any text. -/
theorem follows_literal {c : Char} {piece cs : List Char} {text : String} {pts ts : List Token} {st : Lexer}
    (h : Lexes .idle cs ts st) (htext : text.toList = c :: piece) (hlex : Lexes .idle text.toList pts .idle)
    (hc : c.isDigit = false) : Follows (text.toList ++ cs) (pts ++ ts) st := by
  rw [htext] at hlex ⊢
  exact h.follows hlex hc

/-- A key with a number, if it is written. -/
theorem follows_optional {p : Prop} [Decidable p] {c : Char} {piece cs : List Char} {text : String}
    {pts ts : List Token} {st : Lexer} (n : Int) (h : Follows cs ts st) (htext : text.toList = c :: piece)
    (hlex : Lexes .idle text.toList pts .idle) (hc : c.isDigit = false) :
    Follows ((if p then text ++ toString n else "").toList ++ cs)
      ((if p then pts ++ [.int n] else []) ++ ts) st := by
  split
  · rw [String.toList_append, List.append_assoc, List.append_assoc]
    exact follows_literal (h.int n) htext hlex hc
  · exact h

theorem lexes_typeField (type : EventType) :
    Lexes .idle (",\"type\":\"" ++ eventName type ++ "\"").toList
      [.comma, .str "type", .colon, .str (eventName type)] .idle := by
  cases type <;> rfl

theorem lexes_typeField_tid (type : EventType) :
    Lexes .idle (",\"type\":\"" ++ eventName type ++ "\",\"tid\":").toList
      [.comma, .str "type", .colon, .str (eventName type), .comma, .str "tid", .colon] .idle := by
  have htid : Lexes .idle ",\"tid\":".toList [.comma, .str "tid", .colon] .idle := rfl
  have htext : "\",\"tid\":".toList = "\"".toList ++ ",\"tid\":".toList := rfl
  have hall := (lexes_typeField type).append htid
  rw [String.toList_append, htext, ← List.append_assoc, ← String.toList_append]
  exact hall

/-- The part of an event's text that depends on its thread. -/
def eventHead (e : TraceEvent) : String :=
  if 0 ≤ e.tid then
    "    \x7b\"step\":" ++ toString e.step ++ ",\"type\":\"" ++ eventName e.type ++ "\",\"tid\":" ++ toString e.tid
  else "    \x7b\"step\":" ++ toString e.step ++ ",\"type\":\"" ++ eventName e.type ++ "\""

/-- The tokens that every event begins with. -/
def headTokens (e : TraceEvent) : List Token :=
  [.lbrace, .str "step", .colon, .int e.step, .comma, .str "type", .colon, .str (eventName e.type)]

/-- The tokens of a field that is there if `p` holds. -/
def fieldTokens (p : Prop) [Decidable p] (key : String) (n : Int) : List Token :=
  if p then [.comma, .str key, .colon, .int n] else []

theorem lexes_eventHead (e : TraceEvent) {cs : List Char} {ts : List Token} {st : Lexer}
    (h : Follows cs ts st) :
    Lexes .idle ((eventHead e).toList ++ cs)
      (headTokens e ++ (fieldTokens (0 ≤ e.tid) "tid" e.tid ++ ts)) st := by
  have hopen : Lexes .idle "    \x7b\"step\":".toList [.lbrace, .str "step", .colon] .idle := rfl
  unfold eventHead fieldTokens
  split
  · have htext : (",\"type\":\"" ++ eventName e.type ++ "\",\"tid\":").toList =
        ',' :: ("\"type\":\"" ++ eventName e.type ++ "\",\"tid\":").toList := by
      simp only [String.toList_append]
      rfl
    have hnext := follows_literal (h.int e.tid) htext (lexes_typeField_tid e.type) rfl
    have hall := hopen.append (hnext.nat e.step)
    simp only [String.toList_append, List.append_assoc] at hall ⊢
    exact hall
  · have htext : (",\"type\":\"" ++ eventName e.type ++ "\"").toList =
        ',' :: ("\"type\":\"" ++ eventName e.type ++ "\"").toList := by
      simp only [String.toList_append]
      rfl
    have hnext := follows_literal h.lexes htext (lexes_typeField e.type) rfl
    have hall := hopen.append (hnext.nat e.step)
    simp only [String.toList_append, List.append_assoc] at hall ⊢
    exact hall

theorem recordTokens_eventFields (e : TraceEvent) (ts : List Token) :
    Json.recordTokens (eventFields e) ++ ts =
      headTokens e ++
        (fieldTokens (0 ≤ e.tid) "tid" e.tid ++
          (fieldTokens (0 ≤ e.resourceId) "resource" e.resourceId ++
            (fieldTokens (e.arg ≠ 0) "arg" e.arg ++ .rbrace :: ts))) := by
  unfold Json.recordTokens eventFields fieldTokens
  split_ifs <;> rfl

theorem lexes_dumpEvent (e : TraceEvent) {cs : List Char} {ts : List Token} {st : Lexer}
    (h : Lexes .idle cs ts st) :
    Lexes .idle ((dumpEvent e).toList ++ cs) (Json.recordTokens (eventFields e) ++ ts) st := by
  have hend : Follows ("\x7d".toList ++ cs) (.rbrace :: ts) st :=
    @follows_literal '\x7d' [] cs "\x7d" [.rbrace] ts st h rfl rfl rfl
  have harg := @follows_optional (e.arg ≠ 0) _ _ _ _ ",\"arg\":" [.comma, .str "arg", .colon] _ st e.arg hend
    rfl rfl rfl
  have hres := @follows_optional (0 ≤ e.resourceId) _ _ _ _ ",\"resource\":"
    [.comma, .str "resource", .colon] _ st e.resourceId harg rfl rfl rfl
  rw [recordTokens_eventFields]
  unfold dumpEvent
  rw [String.toList_append, String.toList_append, String.toList_append, List.append_assoc, List.append_assoc,
    List.append_assoc]
  exact lexes_eventHead e hres

/-- The later entries of the schedule, each with its comma. -/
theorem follows_dumpSchedule {i : Nat} (hi : i ≠ 0) (tids : List Int) {cs : List Char} {ts : List Token}
    {st : Lexer} (h : Follows cs ts st) :
    Follows ((dumpScheduleFrom i tids).toList ++ cs) (tids.flatMap (fun t => [.comma, .int t]) ++ ts) st := by
  induction tids generalizing i with
  | nil => exact h
  | cons t tids ih =>
    have hrest := ih (Nat.succ_ne_zero i)
    have hcomma : Lexes .idle ",".toList [.comma] .idle := rfl
    have hone := follows_literal (hrest.int t) rfl hcomma rfl
    rw [dumpScheduleFrom, if_pos hi, String.toList_append, String.toList_append, List.append_assoc,
      List.append_assoc]
    exact hone

theorem lexes_dumpSchedule (tids : List Int) {cs : List Char} {ts : List Token} {st : Lexer}
    (h : Follows cs ts st) :
    Lexes .idle ((dumpScheduleFrom 0 tids).toList ++ cs) (Json.commas (tids.map fun t => [.int t]) ++ ts) st := by
  cases tids with
  | nil => exact h.lexes
  | cons t tids =>
    have hrest := (follows_dumpSchedule Nat.one_ne_zero tids h).int t
    rw [dumpScheduleFrom, if_neg (not_not.mpr rfl), String.toList_append, String.toList_append, List.append_assoc,
      List.append_assoc, List.map_cons, Json.commas, List.flatMap_map, List.append_assoc]
    exact hrest

/-- The events, with commas between them. -/
theorem lexes_dumpEvents {count i : Nat} {es : List TraceEvent} (hcount : i + es.length = count)
    {cs : List Char} {ts : List Token} {st : Lexer} (h : Lexes .idle cs ts st) :
    Lexes .idle ((dumpEventsFrom count i es).toList ++ cs)
      (Json.commas (es.map fun e => Json.recordTokens (eventFields e)) ++ ts) st := by
  have hnewline : Lexes .idle "\n".toList [] .idle := rfl
  have hcomma : Lexes .idle ",".toList [.comma] .idle := rfl
  induction es generalizing i with
  | nil => exact h
  | cons e es ih =>
    rw [List.length_cons] at hcount
    rw [dumpEventsFrom, String.toList_append, String.toList_append, String.toList_append]
    cases es with
    | nil =>
      rw [List.length_nil] at hcount
      have hone := lexes_dumpEvent e (hnewline.append h)
      rw [if_neg (by omega)]
      simp only [List.append_assoc, List.map_cons, List.map_nil, Json.commas, List.flatMap_nil,
        List.append_nil]
      exact hone
    | cons e' es =>
      have hrest := hnewline.append (ih (i := i + 1) (by omega))
      have hone := lexes_dumpEvent e (hcomma.append hrest)
      rw [if_pos (by rw [List.length_cons] at hcount; omega)]
      have htokens : Json.commas ((e :: e' :: es).map fun e => Json.recordTokens (eventFields e)) =
          Json.recordTokens (eventFields e) ++
            .comma :: Json.commas ((e' :: es).map fun e => Json.recordTokens (eventFields e)) := by
        simp [Json.commas]
      rw [htokens]
      simp only [List.append_assoc, List.cons_append]
      exact hone

/-- The tokens of a trace. -/
def traceTokens (trace : Trace) : List Token :=
  .lbrace :: Json.commas
    [.str "schedule" :: .colon ::
        (.lbracket :: Json.commas (trace.schedule.toList.map fun t => [.int t]) ++ [.rbracket]),
      .str "events" :: .colon ::
        (.lbracket :: Json.commas (trace.events.toList.map fun e => Json.recordTokens (eventFields e)) ++
          [.rbracket])] ++ [.rbrace]

theorem lexes_traceDumpJson (trace : Trace) :
    Lexes .idle (traceDumpJson trace).toList (traceTokens trace) .idle := by
  have hopen : Lexes .idle "\x7b\n  \"schedule\": [".toList [.lbrace, .str "schedule", .colon, .lbracket] .idle :=
    rfl
  have hmiddle : Lexes .idle "],\n  \"events\": [\n".toList
      [.rbracket, .comma, .str "events", .colon, .lbracket] .idle := rfl
  have hclose : Lexes .idle "  ]\n\x7d\n".toList [.rbracket, .rbrace] .idle := rfl
  have hcount : 0 + trace.events.toList.length = trace.events.count := by
    rw [Nat.zero_add, LiveArray.length_toList]
  have hevents := lexes_dumpEvents hcount hclose
  have htext : "],\n  \"events\": [\n".toList = ']' :: ",\n  \"events\": [\n".toList := rfl
  have hbracket : Char.isDigit ']' = false := rfl
  have hnext := follows_literal hevents htext hmiddle hbracket
  have hschedule := lexes_dumpSchedule trace.schedule.toList hnext
  have hall := hopen.append hschedule
  have htokens : traceTokens trace = [.lbrace, .str "schedule", .colon, .lbracket] ++
      (Json.commas (trace.schedule.toList.map fun t => [.int t]) ++
        ([.rbracket, .comma, .str "events", .colon, .lbracket] ++
          (Json.commas (trace.events.toList.map fun e => Json.recordTokens (eventFields e)) ++
            [.rbracket, .rbrace]))) := by
    simp [traceTokens, Json.commas]
  have hsplit : (traceDumpJson trace).toList = "\x7b\n  \"schedule\": [".toList ++
      ((dumpScheduleFrom 0 trace.schedule.toList).toList ++ ("],\n  \"events\": [\n".toList ++
        ((dumpEventsFrom trace.events.count 0 trace.events.toList).toList ++ "  ]\n\x7d\n".toList))) := by
    unfold traceDumpJson
    simp only [String.toList_append, List.append_assoc]
  rw [htokens, hsplit]
  exact hall

theorem reads_traceTokens (trace : Trace) : Reads (traceTokens trace) (traceJson trace) := by
  have hschedule : Reads (.lbracket :: Json.commas (trace.schedule.toList.map fun t => [.int t]) ++ [.rbracket])
      (.arr (trace.schedule.toList.map .int)) := by
    refine .arr ?_
    rw [List.forall₂_map_left_iff, List.forall₂_map_right_iff, List.forall₂_same]
    exact fun t _ => Json.reads_int t
  have hevents : Reads (.lbracket ::
        Json.commas (trace.events.toList.map fun e => Json.recordTokens (eventFields e)) ++ [.rbracket])
      (.arr (trace.events.toList.map fun e => Json.record (eventFields e))) := by
    refine .arr ?_
    rw [List.forall₂_map_left_iff, List.forall₂_map_right_iff, List.forall₂_same]
    exact fun e _ => Json.reads_record (eventFields e)
  exact .obj (.cons ⟨_, rfl, hschedule⟩ (.cons ⟨_, rfl, hevents⟩ .nil))

/-- **What is written is read back**, field by field. -/
theorem loadTrace_traceDumpJson (trace : Trace) : loadTrace (traceDumpJson trace) = .ok (traceJson trace) := by
  rw [loadTrace, Json.parse_of_reads (lexes_traceDumpJson trace) (reads_traceTokens trace)]

/-! ## The two timelines -/

/-- The call ends without an exception. -/
def Py.Ok {α : Type} (p : Py α) : Prop := ∃ v, p = .ok v

theorem Py.ok_bind {α β : Type} {p : Py α} {f : α → Py β} : (p >>= f).Ok ↔ ∃ v, p = .ok v ∧ (f v).Ok := by
  cases p with
  | error e => exact ⟨fun ⟨_, h⟩ => absurd h (by simp [bind, Except.bind]), fun ⟨_, h, _⟩ => absurd h (by simp)⟩
  | ok v => exact ⟨fun h => ⟨v, rfl, h⟩, fun ⟨_, h, hf⟩ => by cases h; exact hf⟩

theorem Py.ok_pure {α : Type} (v : α) : Py.Ok (pure v) := ⟨v, rfl⟩

/-- A loop ends without an exception if every turn does. -/
theorem Py.ok_mapM {α β : Type} {f : α → Py β} {l : List α} : (l.mapM f).Ok ↔ ∀ x ∈ l, (f x).Ok := by
  induction l with
  | nil => exact ⟨fun _ x hx => absurd hx List.not_mem_nil, fun _ => ⟨[], rfl⟩⟩
  | cons x l ih =>
    rw [List.mapM_cons, Py.ok_bind, List.forall_mem_cons, ← ih]
    constructor
    · rintro ⟨y, hy, hrest⟩
      obtain ⟨ys, hys, _⟩ := Py.ok_bind.mp hrest
      exact ⟨⟨y, hy⟩, ⟨ys, hys⟩⟩
    · rintro ⟨⟨y, hy⟩, ⟨ys, hys⟩⟩
      exact ⟨y, hy, Py.ok_bind.mpr ⟨ys, hys, Py.ok_pure _⟩⟩

/-- An event, as the reader has it. -/
def eventJson (e : TraceEvent) : Json := Json.record (eventFields e)

theorem getItem_tid (e : TraceEvent) :
    getItem (eventJson e) "tid" = if 0 ≤ e.tid then .ok (.int e.tid) else .error (.keyError "tid") := by
  unfold eventJson eventFields Json.record getItem Json.field?
  split_ifs <;> simp [Scalar.json, List.lookup_cons]

theorem getItem_type (e : TraceEvent) : getItem (eventJson e) "type" = .ok (.str (eventName e.type)) := by
  unfold eventJson eventFields Json.record getItem Json.field?
  split_ifs <;> simp [Scalar.json, List.lookup_cons]

theorem getItem_step (e : TraceEvent) : getItem (eventJson e) "step" = .ok (.int e.step) := by
  unfold eventJson eventFields Json.record getItem Json.field?
  split_ifs <;> simp [Scalar.json, List.lookup_cons]

theorem getItem_events (trace : Trace) :
    getItem (traceJson trace) "events" = .ok (.arr (trace.events.toList.map eventJson)) := by
  simp [traceJson, getItem, Json.field?, eventJson]

/-- Every event has a thread. -/
def Trace.Threaded (trace : Trace) : Prop := ∀ e ∈ trace.events.toList, 0 ≤ e.tid

theorem asInt_tid {e : TraceEvent} (h : 0 ≤ e.tid) : (getItem (eventJson e) "tid" >>= asInt) = .ok e.tid := by
  rw [getItem_tid, if_pos h]
  rfl

theorem not_ok_tid {e : TraceEvent} (h : ¬ 0 ≤ e.tid) : ¬ (getItem (eventJson e) "tid" >>= asInt).Ok := by
  rw [getItem_tid, if_neg h]
  rintro ⟨_, herror⟩
  exact absurd herror (by simp [bind, Except.bind])

theorem maxTid_of_threaded {es : List TraceEvent} (h : ∀ e ∈ es, 0 ≤ e.tid) :
    maxTid (es.map eventJson) = .ok (foldMax 0 ((es.map (·.tid)).filter (0 ≤ ·))) := by
  have htids : (es.map eventJson).mapM (fun e => do asInt (← getItem e "tid")) = .ok (es.map (·.tid)) := by
    induction es with
    | nil => rfl
    | cons e es ih =>
      obtain ⟨he, hes⟩ := List.forall_mem_cons.mp h
      rw [List.map_cons, List.mapM_cons, asInt_tid he, ih hes]
      rfl
  unfold maxTid
  rw [htids]
  rfl

theorem tid_le_maxTid {es : List TraceEvent} (h : ∀ e ∈ es, 0 ≤ e.tid) {e : TraceEvent} (he : e ∈ es) :
    e.tid ≤ foldMax 0 ((es.map (·.tid)).filter (0 ≤ ·)) :=
  (foldMax_isGreatest _ _).2 (.inr (List.mem_filter.mpr ⟨List.mem_map_of_mem he, by simpa using h e he⟩))

theorem rowTid_of_threaded {e : TraceEvent} (h : 0 ≤ e.tid) : rowTid (eventJson e) = .ok e.tid := by
  unfold rowTid
  rw [← bind_assoc, asInt_tid h]
  simp [bind, Except.bind, pure, Except.pure, not_lt.mpr h]

theorem ok_dictGet (e : TraceEvent) (key : String) (dflt : Json) : (dictGet (eventJson e) key dflt).Ok := ⟨_, rfl⟩

/-- An event's row of the text has a column for its thread. -/
theorem ok_textRow {e : TraceEvent} (h : 0 ≤ e.tid) {maxTid : Int} (hmax : e.tid ≤ maxTid) :
    (textRow maxTid (eventJson e)).Ok := by
  obtain ⟨res, hres⟩ := ok_dictGet e "resource" (.str "")
  have hcolumn : ¬ (List.replicate (maxTid + 1).toNat "     ").length ≤ e.tid.toNat := by
    rw [List.length_replicate]
    omega
  unfold textRow
  rw [rowTid_of_threaded h, getItem_type, hres, getItem_step]
  simp only [bind, Except.bind, asStr, if_neg hcolumn, formatWidth]
  exact Py.ok_pure _

theorem ok_htmlRow {e : TraceEvent} (h : 0 ≤ e.tid) (maxTid : Int) : (htmlRow maxTid (eventJson e)).Ok := by
  obtain ⟨res, hres⟩ := ok_dictGet e "resource" (.str "")
  unfold htmlRow
  rw [rowTid_of_threaded h, getItem_type, hres, getItem_step]
  exact Py.ok_pure _

theorem ok_maxTid_iff {es : List TraceEvent} : (maxTid (es.map eventJson)).Ok ↔ ∀ e ∈ es, 0 ≤ e.tid := by
  constructor
  · intro h e he
    obtain ⟨tids, htids, _⟩ := Py.ok_bind.mp h
    have hone := Py.ok_mapM.mp ⟨tids, htids⟩ (eventJson e) (List.mem_map_of_mem he)
    by_contra hneg
    exact not_ok_tid hneg hone
  · exact fun h => ⟨_, maxTid_of_threaded h⟩

theorem ok_schedule (trace : Trace) : (dictGet (traceJson trace) "schedule" (.arr [])).Ok := ⟨_, rfl⟩

/-- **The text can be printed exactly if every event has a thread, …** -/
theorem textTimeline_ok_iff (trace : Trace) : (textTimeline (traceJson trace)).Ok ↔ trace.Threaded := by
  obtain ⟨schedule, hschedule⟩ := ok_schedule trace
  unfold textTimeline
  rw [getItem_events, hschedule]
  constructor
  · intro h
    obtain ⟨_, ⟨⟩, h⟩ := Py.ok_bind.mp h
    obtain ⟨_, ⟨⟩, h⟩ := Py.ok_bind.mp h
    obtain ⟨_, ⟨⟩, h⟩ := Py.ok_bind.mp h
    obtain ⟨max, hmax, _⟩ := Py.ok_bind.mp h
    exact ok_maxTid_iff.mp ⟨max, hmax⟩
  · intro h
    refine Py.ok_bind.mpr ⟨_, rfl, Py.ok_bind.mpr ⟨_, rfl, Py.ok_bind.mpr ⟨_, rfl, ?_⟩⟩⟩
    refine Py.ok_bind.mpr ⟨_, maxTid_of_threaded h, ?_⟩
    have hrows : ((trace.events.toList.map eventJson).mapM
        (textRow (foldMax 0 ((trace.events.toList.map (·.tid)).filter (0 ≤ ·))))).Ok := by
      refine Py.ok_mapM.mpr (List.forall_mem_map.mpr fun e he => ?_)
      exact ok_textRow (h e he) (tid_le_maxTid h he)
    obtain ⟨rows, hrows⟩ := hrows
    exact Py.ok_bind.mpr ⟨rows, hrows, Py.ok_pure _⟩

/-- **… and so can the table.** -/
theorem htmlTimeline_ok_iff (trace : Trace) : (htmlTimeline (traceJson trace)).Ok ↔ trace.Threaded := by
  obtain ⟨schedule, hschedule⟩ := ok_schedule trace
  unfold htmlTimeline
  rw [getItem_events, hschedule]
  constructor
  · intro h
    obtain ⟨_, ⟨⟩, h⟩ := Py.ok_bind.mp h
    obtain ⟨_, ⟨⟩, h⟩ := Py.ok_bind.mp h
    obtain ⟨max, hmax, _⟩ := Py.ok_bind.mp h
    exact ok_maxTid_iff.mp ⟨max, hmax⟩
  · intro h
    refine Py.ok_bind.mpr ⟨_, rfl, Py.ok_bind.mpr ⟨_, rfl, ?_⟩⟩
    refine Py.ok_bind.mpr ⟨_, maxTid_of_threaded h, ?_⟩
    have hrows : ((trace.events.toList.map eventJson).mapM
        (htmlRow (foldMax 0 ((trace.events.toList.map (·.tid)).filter (0 ≤ ·))))).Ok :=
      Py.ok_mapM.mpr (List.forall_mem_map.mpr fun e he => ok_htmlRow (h e he) _)
    obtain ⟨rows, hrows⟩ := hrows
    exact Py.ok_bind.mpr ⟨_, rfl, Py.ok_bind.mpr ⟨rows, hrows, Py.ok_pure _⟩⟩

/-- `viz.py` prints both timelines of a file. -/
def Visualized (text : String) : Prop :=
  ∃ data, loadTrace text = .ok data ∧ (textTimeline data).Ok ∧ (htmlTimeline data).Ok

theorem visualized_iff (trace : Trace) : Visualized (traceDumpJson trace) ↔ trace.Threaded := by
  constructor
  · rintro ⟨data, hload, htext, _⟩
    rw [loadTrace_traceDumpJson] at hload
    cases hload
    exact (textTimeline_ok_iff trace).mp htext
  · exact fun h => ⟨_, loadTrace_traceDumpJson trace, (textTimeline_ok_iff trace).mpr h,
      (htmlTimeline_ok_iff trace).mpr h⟩

/-! ## The threads of a recorded trace -/

/-- Threads wait in every queue, also in that of the resource `-1`. -/
def QueuesOfThreads (sc : Scenario) (w : World) : Prop :=
  ∀ r, ∀ u ∈ (w.resources r).waiters.toList, sc.IsThread u

theorem queuesOfThreads_start (sc : Scenario) : QueuesOfThreads sc (startWorld sc) := by
  intro r u hu
  unfold startWorld World.reset at hu
  dsimp only at hu
  split at hu
  · exact absurd hu List.not_mem_nil
  · exact absurd hu List.not_mem_nil

theorem QueuesOfThreads.tick {w : World} (h : QueuesOfThreads sc w) : QueuesOfThreads sc (w.tick sc).1 := by
  intro r
  rw [tick_resources]
  exact h r

theorem QueuesOfThreads.step {w : World} {t : Int} (h : QueuesOfThreads sc w) (ht : sc.IsThread t)
    (hok : (w.executeStep sc t).fault = none) : QueuesOfThreads sc (w.executeStep sc t).world := by
  rcases executeStep_cases hok with ⟨_, hworld⟩ | ⟨_, _, hworld⟩ | ⟨a, _, _, _, hfault, hworld⟩
  · rw [hworld]
    exact h.tick
  · rw [hworld]
    exact h.tick
  · rw [hworld]
    intro r u hu
    rcases (dispatch_act hfault).queue_mem hu with hold | ⟨rfl, _⟩
    · exact h.tick r u hold
    · exact ht

/-- Every event of a step is about a thread. -/
theorem executeStep_tid (hv : sc.Valid) {w : World} {t : Int} (h : QueuesOfThreads sc w) (hready : sc.Ready w t) :
    ∀ e ∈ (w.executeStep sc t).log, 0 ≤ e.tid := by
  intro e he
  rw [executeStep_log hv (ready_tick hready), tick_log] at he
  rcases List.mem_append.mp he with he | he
  · obtain ⟨i, hi, rfl⟩ := List.mem_map.mp he
    exact (Scenario.mem_threadIds.mp (List.mem_of_mem_filter hi)).1
  rcases List.mem_cons.mp he with rfl | he
  · rw [opening_tid]
    exact hready.1.1
  · unfold World.report at he
    split at he
    · exact absurd he List.not_mem_nil
    · rename_i a _
      rcases (dispatch_reports _ t a e he).who with hself | hwaiter
      · rw [hself]
        exact hready.1.1
      · exact (h.tick _ _ hwaiter).1

theorem entries_of_executed (hv : sc.Valid) {s : List Int} (h : Executed sc (startWorld sc) s) :
    ∀ e ∈ (runSchedule sc (engineInit sc) s).1.trace.entries, 0 ≤ e.tid ∧ e.type ≠ .deadlock := by
  intro e he
  rw [runSchedule_entries hv] at he
  have he := List.mem_of_mem_take he
  refine ⟨?_, ?_⟩
  · exact h.forall_log (fun w t hw hready => executeStep_tid hv hw hready)
      (fun w t hw hready hok => hw.step hready.1 hok) (queuesOfThreads_start sc) e he
  · exact h.forall_log (I := fun _ => True) (fun w t _ hready => executeStep_ne_deadlock hv hready)
      (fun _ _ _ _ _ => trivial) trivial e he

/-- **A recorded trace has an event of no thread exactly if it ends with the deadlock.** -/
theorem recordedTrace_threaded_iff (hv : sc.Valid) {trace : Trace} (h : RecordedTrace sc trace) :
    trace.Threaded ↔ ¬ trace.EndsDeadlocked := by
  cases h with
  | @deadlock s hlen hrun _ _ =>
    have hreplay := runSchedule_trace_of_clean hv (Nat.le_of_lt hlen) hrun
    have hexec : Executed sc (startWorld sc) s := List.append_nil s ▸ executed_of_clean hrun (.nil _)
    have hspace : ¬ smashMaxTrace ≤ (nodeAt sc s).trace.events.count := by
      have hshort := length_replayLog_lt hv hexec (Nat.le_of_lt hlen)
      rw [← hreplay, ← length_entries, runSchedule_entries hv, List.length_take]
      omega
    have hlog : (nodeAt sc s).trace.log (nodeAt sc s).stepCounter ⟨.deadlock, -1, -1, 0⟩ =
        { (nodeAt sc s).trace with
          events := (nodeAt sc s).trace.events.push ⟨(nodeAt sc s).stepCounter, .deadlock, -1, -1, 0⟩ } :=
      if_neg hspace
    rw [hlog]
    refine iff_of_false (fun hall => ?_) (not_not.mpr ?_)
    · have hlast : (0 : Int) ≤ -1 := hall ⟨(nodeAt sc s).stepCounter, .deadlock, -1, -1, 0⟩ (by simp)
      exact absurd hlast (by decide)
    · simp [Trace.EndsDeadlocked]
  | @violation s t hlen hrun hready _ =>
    have hroom : (s ++ [t]).length ≤ smashMaxDepth := by
      rw [List.length_append, List.length_singleton]
      omega
    have hentries := entries_of_executed hv (executed_of_clean hrun (.last hready))
    rw [runSchedule_trace_of_last hv hroom hrun hready] at hentries
    refine iff_of_true (fun e he => ?_) (not_endsDeadlocked fun e he => (hentries e he).2)
    exact (hentries e.entry (List.mem_map_of_mem he)).1

/-- **What the explorer finds can be visualised exactly if the scenario is accepted and the bug is no
deadlock.** -/
theorem explore_visualized_iff (sc : Scenario) (cfg : Config) (stack : Nat → Saved) {trace : Trace}
    (h : (explore sc cfg stack).failingTrace = some trace) :
    Visualized (traceDumpJson trace) ↔ sc.Valid ∧ ¬ trace.EndsDeadlocked := by
  rw [visualized_iff]
  by_cases hv : sc.Valid
  · rw [recordedTrace_threaded_iff hv (explore_recordedTrace hv cfg stack h)]
    exact (and_iff_right hv).symm
  · refine iff_of_false (fun hall => ?_) fun hand => hv hand.1
    have hrejected : (scenarioValidate sc).isSome = true := Option.isSome_iff_ne_none.mpr hv
    rw [explore, if_pos hrejected] at h
    cases h
    have hlast : (0 : Int) ≤ -1 := hall ⟨0, .invariantFail, -1, -1, 0⟩ (List.mem_singleton.mpr rfl)
    exact absurd hlast (by decide)

theorem explore_visualized_iff_strayUnlock :
    ∃ trace, (explore strayUnlock ⟨false, false, 512, none, true⟩
        fun _ => rootNode strayUnlock).failingTrace = some trace ∧
      (Visualized (traceDumpJson trace) ↔ strayUnlock.Valid ∧ ¬ trace.EndsDeadlocked) := by
  have hfound : (explore strayUnlock ⟨false, false, 512, none, true⟩
      fun _ => rootNode strayUnlock).failingTrace.isSome = true := by decide +kernel
  obtain ⟨trace, htrace⟩ := Option.isSome_iff_exists.mp hfound
  exact ⟨trace, htrace, explore_visualized_iff strayUnlock _ _ htrace⟩

/-- The ABBA deadlock ends with an event of no thread. -/
theorem abbaDeadlock_not_visualized :
    ¬ ∀ (sc : Scenario) (cfg : Config) (stack : Nat → Saved) (trace : Trace),
      (explore sc cfg stack).failingTrace = some trace → Visualized (traceDumpJson trace) := by
  intro hclaim
  have hends : (explore abbaDeadlock ⟨false, false, 512, none, true⟩
      fun _ => rootNode abbaDeadlock).failingTrace.map (fun trace => decide trace.EndsDeadlocked) = some true := by
    decide +kernel
  obtain ⟨trace, htrace, hlast⟩ := Option.map_eq_some_iff.mp hends
  have hrec := explore_recordedTrace (by decide) _ _ htrace
  have hthreaded := (visualized_iff trace).mp (hclaim abbaDeadlock _ _ trace htrace)
  exact (recordedTrace_threaded_iff (by decide) hrec).mp hthreaded (of_decide_eq_true hlast)

end Smash
