import RibMap.Analysis.Operation
import RibMap.Proofs.Walk.Exhaustion

/-! # Mindmaps in sinks

Writing a mindmap piece by piece leaves in a sink what writing its whole text at once would leave
there: the text as far as there is room. Since a node is asked for only when everything before its
line has been written, a full sink also decides how far the walk has come and how much of the log
there is.
-/

namespace RibMap

theorem utf8_append (first next : String) : utf8 (first ++ next) = utf8 first ++ utf8 next := by
  simp only [utf8, String.toUTF8_eq_toByteArray, String.toByteArray_append,
    ByteArray.toList_data_append]

namespace Sink

/-- Whether a text fits into a sink. -/
def fits (sink : Sink) (text : String) : Bool :=
  (sink.write text).2

theorem fits_ofRoom {room : Nat} {text : String} :
    (ofRoom (some room)).fits text = true ↔ (utf8 text).length ≤ room :=
  decide_eq_true_iff

theorem received_write_ofRoom (room : Nat) (text : String) :
    ((ofRoom (some room)).write text).1.received = (utf8 text).take room :=
  List.nil_append _

theorem write_empty (sink : Sink) : sink.write "" = (sink, true) := by
  obtain ⟨room, received⟩ := sink
  have nothing : utf8 "" = [] := by decide +kernel
  cases room <;> simp [write, nothing]

/-- Texts that are written one after the other leave what they leave as one text; nothing is written
behind a text that did not fit. -/
theorem write_append (sink : Sink) (first next : String) :
    sink.write (first ++ next) =
      if sink.fits first then (sink.write first).1.write next else sink.write first := by
  obtain ⟨room, received⟩ := sink
  cases room with
  | none => simp [fits, write, utf8_append]
  | some room =>
    simp only [fits, write, utf8_append, List.length_append, List.take_append, decide_eq_true_eq]
    split
    · rename_i short
      refine Prod.ext ?_ ?_
      · simp [Nat.sub_sub, List.take_of_length_le short]
      · simp only [decide_eq_decide]
        omega
    · rename_i long
      have full : room - (utf8 first).length = 0 := by omega
      refine Prod.ext ?_ ?_
      · simp only [full, List.take_zero, List.append_nil, mk.injEq, Option.some.injEq, and_true]
        omega
      · simp only [decide_eq_decide]
        omega

theorem fits_append (sink : Sink) (first next : String) :
    sink.fits (first ++ next) = (sink.fits first && (sink.write first).1.fits next) := by
  rw [fits, write_append]
  cases room : sink.fits first with
  | false => exact room
  | true => rfl

end Sink

namespace Mindmap

theorem unlines_nil : unlines [] = "" :=
  rfl

theorem unlines_cons (line : String) (rest : List String) :
    unlines (line :: rest) = line ++ "\n" ++ unlines rest := by
  rw [unlines, List.map_cons, String.join_cons, unlines]

/-- The lines of visits. -/
def visitLines (visits : List Visit) : List String :=
  visits.map fun visit => visit.rib.line

theorem visitLines_visits (walk : Walk) : visitLines walk.visits = walk.lines := by
  rw [Walk.lines, Walk.ribs, List.map_map]
  rfl

/-- The number of nodes that are asked for while their lines are written. -/
def reached (sink : Sink) : List Visit → Nat
  | [] => 0
  | visit :: visits =>
    match sink.write (visit.rib.line ++ "\n") with
    | (sink, true) => reached sink visits + 1
    | (_, false) => 1

/-- Write the lines of a walk and the end of the document, asking the walk for its next node only
when everything before the line of this node has been written. The walk is given back as far as it
has come. -/
def writeWalk (root : String) (count : Nat) (sink : Sink) (walk : Walk) : Written × Walk :=
  match _step : walk.next? with
  | none =>
    let (sink, complete) := sink.write (unlines footerLines)
    (⟨sink, [.rendered count root], complete⟩, walk)
  | some (visit, after) =>
    match sink.write (visit.rib.line ++ "\n") with
    | (sink, true) =>
      let (written, last) := writeWalk root (count + 1) sink after
      (written.after visit.events, last)
    | (sink, false) => (⟨sink, visit.events, false⟩, after)
termination_by walk.measure
decreasing_by exact Walk.measure_next?_lt _step

/-- Write the document into a sink, and give the walk back as far as it has come. -/
def writeLazily (mindmap : Mindmap) (sink : Sink) : Written × Walk :=
  match sink.write (unlines headerLines) with
  | (sink, true) => writeWalk mindmap.root 0 sink mindmap.walk
  | (sink, false) => (⟨sink, [], false⟩, mindmap.walk)

section

variable (root : String) (count : Nat) (sink : Sink) (visits : List Visit)

/-- Writing node by node leaves in the sink what writing all lines at once would leave there. -/
theorem sink_writeVisits :
    ((writeVisits root count sink visits).sink, (writeVisits root count sink visits).complete) =
      sink.write (unlines (visitLines visits) ++ unlines footerLines) := by
  induction visits generalizing count sink with
  | nil => rw [writeVisits, visitLines, List.map_nil, unlines_nil, String.empty_append]
  | cons visit visits ih =>
    rw [writeVisits, visitLines, List.map_cons, unlines_cons, String.append_assoc,
      sink.write_append (visit.rib.line ++ "\n"), Sink.fits]
    rcases sink.write (visit.rib.line ++ "\n") with ⟨after, room⟩
    cases room with
    | false => rfl
    | true => exact ih (count + 1) after

/-- A node is asked for if the lines of all nodes before it fit. -/
theorem lt_reached_iff (k : Nat) :
    k < reached sink visits ↔
      k < visits.length ∧ sink.fits (unlines (visitLines (visits.take k))) = true := by
  induction visits generalizing sink k with
  | nil => simp [reached]
  | cons visit visits ih =>
    rw [reached]
    cases k with
    | zero =>
      have room : sink.fits (unlines (visitLines [])) = true := congrArg Prod.snd sink.write_empty
      rcases sink.write (visit.rib.line ++ "\n") with ⟨after, _ | _⟩ <;> simp [room]
    | succ k =>
      rw [List.take_succ_cons, visitLines, List.map_cons, unlines_cons, Sink.fits_append,
        Sink.fits]
      rcases sink.write (visit.rib.line ++ "\n") with ⟨after, room⟩
      cases room with
      | false => simp
      | true =>
        rw [Bool.true_and, List.length_cons, Nat.succ_lt_succ_iff, Nat.succ_lt_succ_iff]
        exact ih after k

/-- The log of writing: what is reported with the nodes that are asked for, and at the end that all
of them are written, if they are. -/
theorem events_writeVisits :
    (writeVisits root count sink visits).events =
      (visits.take (reached sink visits)).flatMap Visit.events ++
        if sink.fits (unlines (visitLines visits)) then [.rendered (count + visits.length) root]
        else [] := by
  induction visits generalizing count sink with
  | nil =>
    have room : sink.fits (unlines (visitLines [])) = true := congrArg Prod.snd sink.write_empty
    rw [writeVisits, if_pos room]
    rfl
  | cons visit visits ih =>
    rw [writeVisits, reached, visitLines, List.map_cons, unlines_cons, Sink.fits_append,
      Sink.fits]
    rcases sink.write (visit.rib.line ++ "\n") with ⟨after, room⟩
    cases room with
    | false => simp
    | true =>
      have next : count + 1 + visits.length = count + (visit :: visits).length := by
        rw [List.length_cons]
        omega
      simp only [Written.after, Bool.true_and]
      rw [ih (count + 1) after, List.take_succ_cons, List.flatMap_cons, List.append_assoc, next]
      rfl

end

/-- A walk that is asked for its nodes only when there is room for them does not get further than
the nodes that are asked for, and what is written is the same. -/
theorem writeWalk_eq (root : String) (count : Nat) (sink : Sink) (walk : Walk) :
    writeWalk root count sink walk =
      (writeVisits root count sink walk.visits, walk.after (reached sink walk.visits)) := by
  fun_induction writeWalk root count sink walk with
  | case1 count sink walk ended _ _ written =>
    rw [Walk.visits_of_next?_eq_none ended, writeVisits, written]
    rfl
  | case2 count sink walk visit after step _ fitted _ _ same ih =>
    rw [Walk.visits_of_next?_eq_some step, writeVisits, reached, fitted]
    rw [same] at ih
    obtain ⟨rfl, rfl⟩ := Prod.mk.inj ih
    rw [Walk.after, Walk.advance_of_next?_eq_some step]
  | case3 count sink walk visit after step _ cut =>
    rw [Walk.visits_of_next?_eq_some step, writeVisits, reached, cut, Walk.after,
      Walk.advance_of_next?_eq_some step]
    rfl

theorem unlines_append (first next : List String) :
    unlines (first ++ next) = unlines first ++ unlines next := by
  rw [unlines, List.map_append, String.join_append, unlines, unlines]

section

variable (mindmap : Mindmap) (sink : Sink)

/-- The number of nodes that are asked for while the document is written. -/
def nodesReached : Nat :=
  match sink.write (unlines headerLines) with
  | (sink, true) => reached sink mindmap.walk.visits
  | (_, false) => 0

/-- Writing the document leaves in a sink what writing its text at once would leave there. -/
theorem write_eq :
    ((mindmap.write sink).sink, (mindmap.write sink).complete) = sink.write mindmap.text := by
  rw [write, text, String.append_assoc, sink.write_append (unlines headerLines), Sink.fits,
    ← visitLines_visits]
  rcases sink.write (unlines headerLines) with ⟨after, room⟩
  cases room with
  | false => rfl
  | true => exact sink_writeVisits mindmap.root 0 after mindmap.walk.visits

theorem sink_write : (mindmap.write sink).sink = (sink.write mindmap.text).1 :=
  congrArg Prod.fst (mindmap.write_eq sink)

theorem complete_write : (mindmap.write sink).complete = sink.fits mindmap.text :=
  congrArg Prod.snd (mindmap.write_eq sink)

theorem writeLazily_eq :
    mindmap.writeLazily sink =
      (mindmap.write sink, mindmap.walk.after (mindmap.nodesReached sink)) := by
  rw [writeLazily, write, nodesReached]
  rcases sink.write (unlines headerLines) with ⟨after, room⟩
  cases room with
  | false => rfl
  | true => exact writeWalk_eq mindmap.root 0 after mindmap.walk

theorem lt_nodesReached_iff (k : Nat) :
    k < mindmap.nodesReached sink ↔
      k < mindmap.walk.ribs.length ∧
        sink.fits (unlines headerLines ++ unlines (mindmap.walk.lines.take k)) = true := by
  rw [nodesReached, Sink.fits_append, Sink.fits, ← visitLines_visits, visitLines, ← List.map_take,
    Walk.ribs, List.length_map]
  rcases sink.write (unlines headerLines) with ⟨after, room⟩
  cases room with
  | false => simp
  | true =>
    rw [Bool.true_and]
    exact lt_reached_iff after mindmap.walk.visits k

theorem events_write :
    (mindmap.write sink).events =
      (mindmap.walk.visits.take (mindmap.nodesReached sink)).flatMap Visit.events ++
        if sink.fits (unlines headerLines ++ unlines mindmap.walk.lines) then
          [.rendered mindmap.walk.ribs.length mindmap.root]
        else [] := by
  rw [write, nodesReached, Sink.fits_append, Sink.fits, ← visitLines_visits, Walk.ribs,
    List.length_map]
  rcases sink.write (unlines headerLines) with ⟨after, room⟩
  cases room with
  | false => simp
  | true =>
    have logged := events_writeVisits mindmap.root 0 after mindmap.walk.visits
    rw [Nat.zero_add] at logged
    rw [Bool.true_and]
    exact logged

variable {mindmap sink}

/-- If all lines fit then every node is asked for. -/
theorem nodesReached_of_fits
    (room : sink.fits (unlines headerLines ++ unlines mindmap.walk.lines) = true) :
    mindmap.walk.ribs.length ≤ mindmap.nodesReached sink := by
  refine Nat.le_of_not_lt fun short => ?_
  refine Nat.lt_irrefl _ ((mindmap.lt_nodesReached_iff sink _).mpr ⟨short, ?_⟩)
  rw [← List.take_append_drop (mindmap.nodesReached sink) mindmap.walk.lines, unlines_append,
    ← String.append_assoc, Sink.fits_append, Bool.and_eq_true] at room
  exact room.1

theorem events_write_of_fits
    (room : sink.fits (unlines headerLines ++ unlines mindmap.walk.lines) = true) :
    (mindmap.write sink).events = mindmap.events := by
  have all := nodesReached_of_fits room
  rw [Walk.ribs, List.length_map] at all
  rw [events_write, if_pos room, List.take_of_length_le all, events, Walk.events]

variable (mindmap sink)

/-- The log of writing is a beginning of the log of writing everything. -/
theorem events_write_prefix : (mindmap.write sink).events <+: mindmap.events := by
  cases room : sink.fits (unlines headerLines ++ unlines mindmap.walk.lines) with
  | true => rw [events_write_of_fits room]
  | false =>
    have cut := List.take_append_drop (mindmap.nodesReached sink) mindmap.walk.visits
    rw [events_write, room, events, Walk.events]
    conv_rhs => rw [← cut]
    rw [List.flatMap_append, List.append_assoc]
    simp

/-- A sink that is never full receives the whole text. -/
theorem write_unbounded :
    mindmap.write (.ofRoom none) = ⟨⟨none, utf8 mindmap.text⟩, mindmap.events, true⟩ := by
  have everything := mindmap.write_eq (.ofRoom none)
  have logged : (mindmap.write (.ofRoom none)).events = mindmap.events := events_write_of_fits rfl
  rcases written : mindmap.write (.ofRoom none) with ⟨sink, events, complete⟩
  rw [written] at everything logged
  obtain ⟨rfl, rfl⟩ := Prod.mk.inj everything
  rw [← logged]
  rfl

/-- That the map is written is reported if all of its lines are. -/
theorem rendered_mem_events_write {count : Nat} {root : String} :
    .rendered count root ∈ (mindmap.write sink).events ↔
      sink.fits (unlines headerLines ++ unlines mindmap.walk.lines) = true ∧
        count = mindmap.walk.ribs.length ∧ root = mindmap.root := by
  have other (visit : Visit) (given : visit ∈ mindmap.walk.visits) :
      .rendered count root ∉ visit.events := by
    rw [Walk.visits_eq] at given
    obtain ⟨frame, -, rfl⟩ := List.mem_map.mp given
    simp [Walk.visitOf, Walk.cycles]
  have early : .rendered count root ∉
      (mindmap.walk.visits.take (mindmap.nodesReached sink)).flatMap Visit.events := by
    intro mem
    obtain ⟨visit, given, reported⟩ := List.mem_flatMap.mp mem
    exact other visit (List.mem_of_mem_take given) reported
  rw [events_write, List.mem_append, or_iff_right early]
  split
  · rename_i room
    rw [List.mem_singleton, Event.rendered.injEq, and_iff_right room]
  · rename_i full
    simp [full]

end

/-- An analysis writes its mindmap, and says so if the sink was full. -/
theorem perform_write [Json.Library] [Swift.Grammar] (analysis : Analysis) (fs : FileSystem)
    (root : String) (sink : Sink) :
    (analysis.perform fs (.write root sink)).events =
        ((analysis.mindmap root).write sink).events ∧
      (analysis.perform fs (.write root sink)).answer =
        .written ((analysis.mindmap root).write sink).sink
          (if sink.fits (analysis.mindmap root).text then none else some .fullSink) := by
  rw [← complete_write]
  exact ⟨rfl, rfl⟩

/-- A sink that takes a number of bytes receives the text of a mindmap as far as it goes, and
writing fails only if there is more of it. A node is asked for exactly if the header and the lines
of all nodes before it fit, and the number of nodes is reported exactly if all lines do; so the log
is a beginning of the log of the complete text. Through an analysis the same is written, and the
failure is that of a sink which takes nothing more. -/
theorem write_into_full_sink [Json.Library] [Swift.Grammar] (edges : EdgeSet) (root : String)
    (limit : Option Nat) (room : Nat) :
    let mindmap : Mindmap := ⟨edges, root, limit⟩
    let walk := mindmap.walk
    let written := mindmap.write (.ofRoom (some room))
    let length (text : String) : Nat := (utf8 text).length
    mindmap.write (.ofRoom none) = ⟨⟨none, utf8 mindmap.text⟩, mindmap.events, true⟩ ∧
      written.sink.received = (utf8 mindmap.text).take room ∧
      (written.complete = true ↔ length mindmap.text ≤ room) ∧
      (∃ nodes, mindmap.writeLazily (.ofRoom (some room)) = (written, walk.after nodes) ∧
        (∀ k, k < nodes ↔ k < walk.ribs.length ∧
          length (unlines headerLines ++ unlines (walk.lines.take k)) ≤ room) ∧
        written.events = (walk.visits.take nodes).flatMap Visit.events ++
          if length (unlines headerLines ++ unlines walk.lines) ≤ room then
            [.rendered walk.ribs.length root]
          else []) ∧
      (∀ count name, .rendered count name ∈ written.events ↔
        length (unlines headerLines ++ unlines walk.lines) ≤ room ∧
          count = walk.ribs.length ∧ name = root) ∧
      written.events <+: mindmap.events ∧
      (∀ (settings : Settings) (fs : FileSystem),
        let analysis : Analysis := ⟨{ settings with maxDepth := limit }, edges⟩
        let performed := analysis.perform fs (.write root (.ofRoom (some room)))
        performed.events = written.events ∧
          performed.answer =
            .written written.sink (if length mindmap.text ≤ room then none else some .fullSink)) ∧
      AnalysisError.fullSink.causes = ["failed to write whole buffer"] := by
  intro mindmap walk written length
  have arrived : written.sink.received = (utf8 mindmap.text).take room := by
    rw [sink_write, Sink.received_write_ofRoom]
  have whole : written.complete = true ↔ length mindmap.text ≤ room := by
    rw [complete_write, Sink.fits_ofRoom]
  refine ⟨mindmap.write_unbounded, arrived, whole,
    ⟨mindmap.nodesReached (.ofRoom (some room)), mindmap.writeLazily_eq _, fun k => ?_, ?_⟩,
    fun count name => ?_, mindmap.events_write_prefix _, fun settings fs => ?_, rfl⟩
  · rw [lt_nodesReached_iff, Sink.fits_ofRoom]
  · rw [events_write]
    exact congrArg _ (if_congr Sink.fits_ofRoom rfl rfl)
  · rw [rendered_mem_events_write, Sink.fits_ofRoom]
  · have performed := perform_write ⟨{ settings with maxDepth := limit }, edges⟩ fs root
      (.ofRoom (some room))
    simp only [Sink.fits_ofRoom] at performed
    exact performed

end Mindmap

end RibMap
