import Mathlib.Algebra.Group.Nat.Even
import SchemaMigration.Migration.Source
import SchemaMigration.Proofs.TextReading
/-! # The segments of a script

What a script consists of, without a scanner: it is cut at every semicolon that follows an even
number of `$$` pairs, each segment is judged for itself, and the first fault ends the sequence
(`outcomes`).  The scanner sees the script in chunks of any size, keeps four flags from byte to
byte, and compares a size with the limit only at a cut and at the end of a chunk.  It answers
with the same sequence all the same: the flags are what the pairs of the segment make them
(`Scanner.Reads`), and a segment that has grown too large can only end in that fault, wherever
it is noticed. -/
namespace SchemaMigration.Script

/-- The number of pairs of dollar signs, taken left to right without overlap. -/
def pairs : List UInt8 → Nat
  | a :: b :: rest => if a = dollar ∧ b = dollar then pairs rest + 1 else pairs (b :: rest)
  | _ => 0

/-- Cuts what follows `seen` at every semicolon with an even number of pairs before it, back to
the last cut: the segments, and what follows the last cut. -/
def segmentsFrom (seen : List UInt8) : List UInt8 → List (List UInt8) × List UInt8
  | [] => ([], seen)
  | b :: rest =>
    if b = semicolon ∧ Even (pairs seen) then
      let (segments, last) := segmentsFrom [] rest
      (seen :: segments, last)
    else segmentsFrom (seen ++ [b]) rest

/-- What a segment comes to: a fault, a statement, or nothing if it is empty. -/
def judge (limit : Nat) (segment : List UInt8) : Option (Except Failure String) :=
  if limit < segment.length then some (.error (.statementTooLarge limit))
  else match Text.Utf8.decode segment with
    | .error fault => some (.error (.io (.notText fault)))
    | .ok cs =>
      if (Text.trim cs).isEmpty then none else some (.ok (String.ofList (Text.trim cs)))

/-- What follows the last cut comes to: a statement without a semicolon must not hold a
block. -/
def judgeLast (limit : Nat) (segment : List UInt8) : Option (Except Failure String) :=
  if limit < segment.length then some (.error (.statementTooLarge limit))
  else if ¬Even (pairs segment) then some (.error .unclosedBlock)
  else match Text.Utf8.decode segment with
    | .error fault => some (.error (.io (.notText fault)))
    | .ok cs =>
      if 0 < pairs segment then some (.error .unclosedBlock)
      else if (Text.trim cs).isEmpty then none else some (.ok (String.ofList (Text.trim cs)))

/-- A sequence of results up to its first fault. -/
def untilFault : List (Except Failure String) → List (Except Failure String)
  | [] => []
  | .error f :: _ => [.error f]
  | .ok statement :: rest => .ok statement :: untilFault rest

/-- The results of what is left of a script when `seen` is held since the last cut. -/
def outcomesFrom (limit : Nat) (seen bytes : List UInt8) : List (Except Failure String) :=
  untilFault ((segmentsFrom seen bytes).1.filterMap (judge limit) ++
    (judgeLast limit (segmentsFrom seen bytes).2).toList)

/-- The results of a script. -/
def outcomes (limit : Nat) (bytes : List UInt8) : List (Except Failure String) :=
  outcomesFrom limit [] bytes

variable {limit : Nat} {seen bytes : List UInt8} {b : UInt8}

/-! ### The results byte by byte -/

theorem outcomesFrom_nil : outcomesFrom limit seen [] = (judgeLast limit seen).toList := by
  rw [outcomesFrom, segmentsFrom, List.filterMap_nil, List.nil_append]
  rcases judgeLast limit seen with _ | (f | statement) <;> rfl

theorem outcomesFrom_hold (h : ¬(b = semicolon ∧ Even (pairs seen))) :
    outcomesFrom limit seen (b :: bytes) = outcomesFrom limit (seen ++ [b]) bytes := by
  rw [outcomesFrom, segmentsFrom, if_neg h, outcomesFrom]

/-- At a cut, a fault of the segment is the end. -/
theorem outcomesFrom_cut (h : b = semicolon ∧ Even (pairs seen)) :
    outcomesFrom limit seen (b :: bytes) =
      match judge limit seen with
      | some (.error f) => [.error f]
      | some (.ok statement) => .ok statement :: outcomes limit bytes
      | none => outcomes limit bytes := by
  rw [outcomesFrom, segmentsFrom, if_pos h, List.filterMap_cons]
  rcases judge limit seen with _ | (f | statement) <;> rfl

/-- A segment that is too large already ends in that fault, whatever follows. -/
theorem outcomesFrom_tooLarge (h : limit < seen.length) :
    outcomesFrom limit seen bytes = [.error (.statementTooLarge limit)] := by
  -- the segment only grows until its cut, where its size is what is looked at first
  induction bytes generalizing seen with
  | nil => rw [outcomesFrom_nil, judgeLast, if_pos h, Option.toList_some]
  | cons b bytes ih =>
    by_cases hcut : b = semicolon ∧ Even (pairs seen)
    · rw [outcomesFrom_cut hcut, judge, if_pos h]
    · rw [outcomesFrom_hold hcut, ih (by rw [List.length_append]; omega)]

/-! ### The flags of the scanner -/

theorem dollar_mem_of_pairs {segment : List UInt8} (h : 0 < pairs segment) :
    dollar ∈ segment := by
  induction segment using pairs.induct with
  | case1 a c rest hd ih => exact hd.1 ▸ List.mem_cons_self
  | case2 a c rest hd ih =>
    rw [pairs, if_neg hd] at h
    exact List.mem_cons_of_mem _ (ih h)
  | case3 segment hs =>
    rw [pairs] at h
    · exact absurd h (Nat.lt_irrefl 0)
    · exact hs

/-- A text with a pair is not blank. -/
theorem trim_of_pairs {segment : List UInt8} {cs : List Char}
    (hcs : Text.Utf8.decode segment = .ok cs) (h : 0 < pairs segment) :
    (Text.trim cs).isEmpty = false := by
  have hmem : '$' ∈ cs :=
    Text.Utf8.mem_of_decode_ok hcs (dollar_mem_of_pairs h) (by decide)
  exact List.isEmpty_eq_false_iff.mpr (List.ne_nil_of_mem (Text.mem_trim hmem (by decide)))


/-- Whether the last byte is a dollar sign that belongs to no pair. -/
def dangling : List UInt8 → Bool
  | a :: b :: rest => if a = dollar ∧ b = dollar then dangling rest else dangling (b :: rest)
  | [a] => a = dollar
  | [] => false

theorem pairs_append (seen : List UInt8) (b : UInt8) :
    pairs (seen ++ [b]) = pairs seen + if b = dollar ∧ dangling seen then 1 else 0 := by
  induction seen using pairs.induct with
  | case1 a c rest h ih =>
    rw [List.cons_append, List.cons_append, pairs, if_pos h, ih, pairs, if_pos h, dangling,
      if_pos h, Nat.add_right_comm]
  | case2 a c rest h ih =>
    rw [List.cons_append, List.cons_append, pairs, if_neg h, ← List.cons_append, ih, pairs,
      if_neg h, dangling, if_neg h]
  | case3 seen h =>
    rcases seen with _ | ⟨a, _ | ⟨c, rest⟩⟩
    · simp [pairs, dangling]
    · simp [pairs, dangling, and_comm]
    · exact absurd rfl (h a c rest)

theorem dangling_append (seen : List UInt8) (b : UInt8) :
    dangling (seen ++ [b]) = (decide (b = dollar) && !dangling seen) := by
  induction seen using pairs.induct with
  | case1 a c rest h ih =>
    rw [List.cons_append, List.cons_append, dangling, if_pos h, ih, dangling, if_pos h]
  | case2 a c rest h ih =>
    rw [List.cons_append, List.cons_append, dangling, if_neg h, ← List.cons_append, ih, dangling,
      if_neg h]
  | case3 seen h =>
    rcases seen with _ | ⟨a, _ | ⟨c, rest⟩⟩
    · simp [dangling]
    · by_cases ha : a = dollar <;> by_cases hb : b = dollar <;> simp [dangling, ha, hb]
    · exact absurd rfl (h a c rest)

/-- The scanner holds the bytes since the last cut, and its flags say of their pairs what they
are there to say. -/
structure Scanner.Reads (s : Scanner) (seen : List UInt8) : Prop where
  held : s.held.reverse = seen
  size : s.size = seen.length
  inBlock : s.inBlock = !decide (Even (pairs seen))
  sawBlock : s.sawBlock = decide (0 < pairs seen)
  afterDollar : s.afterDollar = dangling seen

namespace Scanner

variable {s : Scanner}

theorem start_reads : start.Reads [] := ⟨rfl, rfl, rfl, rfl, rfl⟩

/-- Holding a byte is right when the flags are made right. -/
theorem Reads.hold (h : s.Reads seen) {inBlock sawBlock afterDollar : Bool}
    (hin : inBlock = !decide (Even (pairs (seen ++ [b]))))
    (hsaw : sawBlock = decide (0 < pairs (seen ++ [b])))
    (hafter : afterDollar = dangling (seen ++ [b])) :
    Scanner.Reads ⟨b :: s.held, s.size + 1, inBlock, sawBlock, afterDollar⟩ (seen ++ [b]) where
  held := by rw [List.reverse_cons, h.held]
  size := by rw [h.size, List.length_append, List.length_singleton]
  inBlock := hin
  sawBlock := hsaw
  afterDollar := hafter

/-- A byte is a cut exactly when it is one by the pairs before it, and is held otherwise. -/
theorem Reads.byte (h : s.Reads seen) (b : UInt8) :
    match s.byte b with
    | none => b = semicolon ∧ Even (pairs seen)
    | some s' => ¬(b = semicolon ∧ Even (pairs seen)) ∧ s'.Reads (seen ++ [b]) := by
  have hpairs := pairs_append seen b
  have hdangling := dangling_append seen b
  rw [Scanner.byte]
  by_cases hb : b = dollar
  · have hcut : ¬(b = semicolon ∧ Even (pairs seen)) := by
      rintro ⟨rfl, -⟩
      exact absurd hb (by decide)
    rw [if_pos hb, h.afterDollar]
    by_cases hd : dangling seen
    · rw [if_pos ⟨hb, hd⟩] at hpairs
      rw [if_pos hd]
      refine ⟨hcut, h.hold ?_ ?_ ?_⟩
      · simp only [hpairs, h.inBlock, Nat.even_add_one, decide_not]
      · simp [hpairs]
      · simp [hdangling, hd]
    · rw [if_neg fun hc => hd hc.2, Nat.add_zero] at hpairs
      rw [if_neg hd]
      refine ⟨hcut, h.hold ?_ ?_ ?_⟩
      · rw [hpairs, ← h.inBlock, Scanner.hold]
      · rw [hpairs, ← h.sawBlock, Scanner.hold]
      · rw [hdangling]
        simp [hb, hd]
  · rw [if_neg fun hc => hb hc.1, Nat.add_zero] at hpairs
    rw [if_neg hb, h.inBlock]
    by_cases hcut : b = semicolon ∧ Even (pairs seen)
    · rw [if_pos (by simpa using hcut)]
      exact hcut
    · rw [if_neg (by simpa using hcut)]
      refine ⟨hcut, h.hold ?_ ?_ ?_⟩
      · rw [hpairs, ← h.inBlock, Scanner.hold]
      · rw [hpairs, ← h.sawBlock, Scanner.hold]
      · simp [hdangling, hb]

/-- At a cut, the scanner judges the segment. -/
theorem Reads.cut (h : s.Reads seen) :
    s.cut limit =
      match judge limit seen with
      | some (.error f) => .error f
      | some (.ok statement) => .ok (some statement)
      | none => .ok none := by
  rw [Scanner.cut, Scanner.text, h.held, h.size, judge]
  split_ifs
  · rfl
  · rcases Text.Utf8.decode seen with fault | cs
    · rfl
    · by_cases hempty : (Text.trim cs).isEmpty <;> simp [hempty]

/-- What a chunk leads to, for a script that goes on with `more`. -/
theorem Reads.advance (h : s.Reads seen) (limit : Nat) (chunk more : List UInt8) :
    match s.advance limit chunk with
    | .held s' => ∃ seen', s'.Reads seen' ∧
        outcomesFrom limit seen (chunk ++ more) = outcomesFrom limit seen' more
    | .found statement rest =>
        outcomesFrom limit seen (chunk ++ more) = .ok statement :: outcomes limit (rest ++ more)
    | .failed f => outcomesFrom limit seen (chunk ++ more) = [.error f] := by
  induction chunk generalizing s seen with
  | nil => exact ⟨seen, h, rfl⟩
  | cons b rest ih =>
    have hbyte := h.byte b
    rw [Scanner.advance, List.cons_append]
    cases hs : s.byte b with
    | some s' =>
      rw [hs] at hbyte
      rw [outcomesFrom_hold hbyte.1]
      exact ih hbyte.2
    | none =>
      rw [hs] at hbyte
      rw [outcomesFrom_cut hbyte, h.cut]
      rcases judge limit seen with _ | (f | statement)
      -- a segment that is empty is passed over: the scanner starts anew in the same chunk
      · exact ih start_reads
      · rfl
      · rfl

/-- At the end of a script, the scanner judges what follows the last cut. -/
theorem Reads.finish (h : s.Reads seen) (hsize : ¬limit < seen.length) :
    judgeLast limit seen =
      match s.finish with
      | .error f => some (.error f)
      | .ok none => none
      | .ok (some statement) => some (.ok statement) := by
  rw [judgeLast, if_neg hsize, Scanner.finish, h.inBlock, Scanner.text, h.held, h.sawBlock]
  by_cases heven : Even (pairs seen)
  · rw [if_neg (not_not.mpr heven), if_neg (by simpa using heven)]
    rcases hcs : Text.Utf8.decode seen with fault | cs
    · rfl
    · by_cases hpairs : 0 < pairs seen
      · -- a statement with a block is not empty, so the two faults are the same
        have hempty : (Text.trim cs).isEmpty = false := trim_of_pairs hcs hpairs
        simp [hpairs, hempty]
      · by_cases hempty : (Text.trim cs).isEmpty <;> simp [hpairs, hempty]
  · rw [if_pos heven, if_pos (by simpa using heven)]

end Scanner

/-! ### The results call by call -/

/-- The results that are left of a script. -/
def Reading.outcomes (limit : Nat) : Reading → List (Except Failure String)
  | .left chunks => Script.outcomes limit chunks.flatten
  | .ended => []

/-- A call answers with the first of the results that are left, and leaves the others. -/
theorem Scanner.Reads.nextFrom {s : Scanner} (h : s.Reads seen) (hsize : ¬limit < seen.length)
    (chunks : List (List UInt8)) :
    (nextFrom limit s chunks).1 = (outcomesFrom limit seen chunks.flatten).head? ∧
      (nextFrom limit s chunks).2.outcomes limit =
        (outcomesFrom limit seen chunks.flatten).tail := by
  induction chunks generalizing s seen with
  | nil =>
    rw [Script.nextFrom, List.flatten_nil, outcomesFrom_nil, h.finish hsize]
    rcases s.finish with f | _ | statement <;> exact ⟨rfl, rfl⟩
  | cons chunk chunks ih =>
    have hadvance := h.advance limit chunk chunks.flatten
    rw [Script.nextFrom, List.flatten_cons]
    cases hs : s.advance limit chunk with
    | held s' =>
      rw [hs] at hadvance
      obtain ⟨seen', h', heq⟩ := hadvance
      rw [heq]
      dsimp only
      rw [h'.size]
      -- too large after this chunk is too large at the next cut as well
      by_cases hlarge : limit < seen'.length
      · rw [if_pos hlarge, outcomesFrom_tooLarge hlarge]
        exact ⟨rfl, rfl⟩
      · rw [if_neg hlarge]
        exact ih h' hlarge
    | found statement rest =>
      rw [hs] at hadvance
      rw [hadvance]
      exact ⟨rfl, rfl⟩
    | failed f =>
      rw [hs] at hadvance
      rw [hadvance]
      exact ⟨rfl, rfl⟩

theorem next_head (limit : Nat) (r : Reading) : (next limit r).1 = (r.outcomes limit).head? := by
  cases r with
  | left chunks => exact (Scanner.start_reads.nextFrom (Nat.not_lt_zero limit) chunks).1
  | ended => rfl

theorem next_tail (limit : Nat) (r : Reading) :
    (next limit r).2.outcomes limit = (r.outcomes limit).tail := by
  cases r with
  | left chunks => exact (Scanner.start_reads.nextFrom (Nat.not_lt_zero limit) chunks).2
  | ended => rfl

/-- The answer of the `n`-th call, counted from 0. -/
def answer (limit : Nat) : Nat → Reading → Option (Except Failure String)
  | 0, r => (next limit r).1
  | n + 1, r => answer limit n (next limit r).2

theorem answer_eq (limit n : Nat) (r : Reading) : answer limit n r = (r.outcomes limit)[n]? := by
  induction n generalizing r with
  | zero => rw [answer, next_head, List.head?_eq_getElem?]
  | succ n ih => rw [answer, ih, next_tail, List.getElem?_tail]

theorem outcomes_of_next_none {r r' : Reading} (h : next limit r = (none, r')) :
    r.outcomes limit = [] := by
  have hhead := next_head limit r
  rw [h] at hhead
  exact List.head?_eq_none_iff.mp hhead.symm

theorem outcomes_of_next_some {r r' : Reading} {a : Except Failure String}
    (h : next limit r = (some a, r')) : r.outcomes limit = a :: r'.outcomes limit := by
  have hhead := next_head limit r
  have htail := next_tail limit r
  rw [h] at hhead htail
  obtain ⟨rest, hrest⟩ := List.head?_eq_some_iff.mp hhead.symm
  rw [hrest, List.tail_cons] at htail
  rw [hrest, htail]

theorem scanFrom_eq (limit : Nat) (found : List String) (r : Reading) :
    scanFrom limit found r =
      match next limit r with
      | (none, _) => ⟨found.reverse, none⟩
      | (some (.error f), _) => ⟨found.reverse, some f⟩
      | (some (.ok statement), r') => scanFrom limit (statement :: found) r' := by
  rw [scanFrom]
  split <;> rename_i h <;> simp only [h]

/-- Reading to the end gathers the statements, unless one of the results is a fault. -/
theorem scanFrom_all (limit : Nat) (found : List String) (r : Reading) :
    (scanFrom limit found r).all =
      ((r.outcomes limit).mapM id).map (found.reverse ++ ·) := by
  induction found, r using scanFrom.induct limit with
  | case1 found r r' h =>
    rw [scanFrom_eq, h, outcomes_of_next_none h, List.mapM_nil]
    exact congrArg Except.ok (List.append_nil _).symm
  | case2 found r f r' h =>
    rw [scanFrom_eq, h, outcomes_of_next_some h, List.mapM_cons]
    rfl
  | case3 found r statement r' h hsize ih =>
    rw [scanFrom_eq, h, outcomes_of_next_some h, List.mapM_cons]
    -- the statement found now stands before all that are found later
    refine ih.trans ?_
    rcases (r'.outcomes limit).mapM id with f | statements
    · rfl
    · exact congrArg Except.ok (by simp)

/-- A script that is scanned in chunks gives its statements, or the first of its faults. -/
theorem scan_all (limit : Nat) (chunks : List (List UInt8)) :
    (scan limit chunks).all = (outcomes limit chunks.flatten).mapM id := by
  rw [scan, scanFrom_all, Reading.outcomes]
  rcases (outcomes limit chunks.flatten).mapM id with f | statements <;> rfl

theorem Filling.chunks_flatten (f : Filling) :
    f.chunks.flatten = f.full.reverse.flatten ++ f.current.reverse := by
  rw [Filling.chunks]
  split
  · rename_i h
    rw [List.isEmpty_iff.mp h, List.reverse_nil, List.append_nil]
  · rw [List.reverse_cons, List.flatten_append, List.flatten_singleton]

theorem Filling.add_flatten (size : Nat) (f : Filling) (b : UInt8) :
    (f.add size b).chunks.flatten = f.chunks.flatten ++ [b] := by
  rw [Filling.chunks_flatten, Filling.chunks_flatten, Filling.add]
  split
  · simp
  · simp

/-- Chunks put together again are what was cut. -/
theorem chunksOf_flatten (size : Nat) (bytes : List UInt8) :
    (chunksOf size bytes).flatten = bytes := by
  have hfold (f : Filling) :
      (bytes.foldl (Filling.add size) f).chunks.flatten = f.chunks.flatten ++ bytes := by
    induction bytes generalizing f with
    | nil => exact (List.append_nil _).symm
    | cons b bytes ih => rw [List.foldl_cons, ih, Filling.add_flatten, List.append_assoc]; rfl
  rw [chunksOf]
  split
  · exact List.flatten_singleton
  · exact hfold _

end Script

/-- A fault in reading, with the file that was read. -/
def Failure.inFile (path : String) : Failure → Failure
  | .io fault => .file path fault
  | f => f

/-- **What a script consists of does not depend on how it arrives.**  However it is cut into
chunks, and whatever the limit:

* The answers of the scanner, call by call, are the results of the script: the segments judged
  one by one up to the first fault, and nothing from then on.
* A script in a file has the statements that its text has, or the same fault, to which the
  file's name is added where reading it failed. -/
theorem scanner_answers_segments (limit : Nat) (chunks : List (List UInt8)) :
    (∀ n, Script.answer limit n (.left chunks) = (Script.outcomes limit chunks.flatten)[n]?) ∧
    (Script.scan limit chunks).all = (Script.outcomes limit chunks.flatten).mapM id ∧
    ∀ (t : Files) (file : MigrationFile) (script : String),
      t.read file.path = .ok (Text.Utf8.encodeString script) →
      file.statements t = (Script.statements script).mapError (Failure.inFile file.path) := by
  refine ⟨fun n => Script.answer_eq limit n _, Script.scan_all limit chunks, ?_⟩
  intro t file script hread
  have hscan : Script.fileStatements (Text.Utf8.encodeString script) =
      Script.statements script := by
    rw [Script.fileStatements, Script.statements, Script.scan_all, Script.scan_all,
      Script.chunksOf_flatten, List.flatten_singleton]
  rw [MigrationFile.statements, hread]
  dsimp only
  rw [hscan]
  rcases Script.statements script with f | statements
  · cases f <;> rfl
  · rfl

/-- A tree with one script, in which a block holds a semicolon. -/
def Files.withBlock : Files :=
  ⟨[(["1.up.sql"], .file (Text.Utf8.encodeString "$$;$$; SELECT 1"))], []⟩

/-- A pair of dollar signs is one pair in two chunks, and the script has the same statements in
its file. -/
theorem scanner_answers_segments_split_pair :
    Script.answer 8 0 (.left [[36], [36, 59, 36], [36, 59]]) = some (.ok "$$;$$") ∧
    MigrationFile.statements .withBlock ⟨"1", false, .up, "/1.up.sql"⟩ =
      .ok ["$$;$$", "SELECT 1"] := by
  obtain ⟨hanswer, -, hfile⟩ := scanner_answers_segments 8 [[36], [36, 59, 36], [36, 59]]
  refine ⟨(hanswer 0).trans rfl, ?_⟩
  rw [hfile .withBlock ⟨"1", false, .up, "/1.up.sql"⟩ "$$;$$; SELECT 1" (by decide +kernel),
    Script.statements, Script.scan_all]
  rfl

end SchemaMigration
