import Mathlib.Data.List.Infix
import MokuroBunko.Layout.Geometry
import MokuroBunko.Layout.LongestMatch

/-! An engine's reading of a line merged with the CTC reading (`reconcile.rs`). The normal form NFKC
is a parameter.
-/

namespace MokuroBunko.Layout.Reconcile

open MokuroBunko.Lib

-- Characters

def openers : List Char := "「『（〈《【〔".toList
def closers : List Char := "」』）〉》】〕。、".toList
def anchorGlyphs : ℕ := 2
def roomMinCells : ℕ := 4
def repeatMaxUnit : ℕ := 6
def repeatMinCount : ℕ := 4
def shortLineGlyphs : ℕ := 2
def ideographicSpace : Char := '\u3000'
def dash : Char := '―'
def engineDashes : List Char := "-‐–—―".toList
def longVowel : Char := 'ー'
def thinGlyphs : List Char := "一―".toList
def missingGlyph : Char := '〓'
def dots : List Char := ".…‥".toList
def blanks : List Char := ['\u3000', ' ']
def ellipsis : Char := '…'

section Thresholds

variable {F : Type} [Floats F]

def patchMinAgreement : F := 0.8
def runawayRatio : F := 1.35
def runawaySlack : F := 2.0
def loopRatio : F := 2.0
def loopMinShare : F := 0.8
def shortLineMinConf : F := 0.9
def ctcDoubtConf : F := 0.5
def confirmedMinAgreement : F := 0.85
def skippedMinConf : F := 0.94
def kanaStandsConf : F := 0.995

end Thresholds

def isSpace (char : Char) : Bool :=
  Text.isWhitespace char || (0x1C ≤ char.toNat && char.toNat ≤ 0x1F)

def strip (text : List Char) : List Char :=
  (text.dropWhile isSpace).rdropWhile isSpace

def isAsciiAlnum (char : Char) : Bool := char.isAlphanum

/-- Whether the text has the mark in it. -/
def contains (text mark : List Char) : Bool := decide (mark <:+: text)

def first (value : List Char) : Char := value.headD '\x00'

def slice {α : Type} (text : List α) (a b : ℕ) : List α := (text.take b).drop a

def isJapanese (char : Char) : Bool :=
  let o := char.toNat
  (0x3041 ≤ o && o ≤ 0x30FF) || (0x3400 ≤ o && o ≤ 0x9FFF) || "々〆〇".toList.contains char

def isKanji (char : Char) : Bool :=
  (0x3400 ≤ char.toNat && char.toNat ≤ 0x9FFF) || "々〆〇".toList.contains char

def isKana (char : Char) : Bool := 0x3041 ≤ char.toNat && char.toNat ≤ 0x30FF

def isPlainKana (char : Char) : Bool := isKana char && ! "ー・゠".toList.contains char

-- Tokens

structure Token where
  value : List Char
  start : ℕ
  stop : ℕ
  deriving DecidableEq

variable {F : Type} [Floats F] (nfkc : List Char → List Char)

/-- NFKC without any whitespace. -/
def fold (text : List Char) : List Char := (nfkc text).filter (fun char => ! isSpace char)

/-- A run of dots is one token. -/
def addDots (out : List Token) (folded : List Char) (i : ℕ) : List Token :=
  let value := if 1 < folded.length then [ellipsis] else ['.']
  match out.getLast? with
  | some last =>
      if last.stop = i ∧ (last.value = ['.'] ∨ last.value = [ellipsis]) then
        out.dropLast ++ [⟨[ellipsis], last.start, i + 1⟩]
      else out ++ [⟨value, i, i + 1⟩]
  | none => out ++ [⟨value, i, i + 1⟩]

def addTokens (withBlanks : Bool) (out : List Token) (char : Char × ℕ) : List Token :=
  if blanks.contains char.1 && withBlanks then out ++ [⟨[char.1], char.2, char.2 + 1⟩]
  else
    let folded := fold nfkc [char.1]
    if ! folded.isEmpty && folded.all dots.contains then addDots out folded char.2
    else out ++ folded.map (fun part => ⟨[part], char.2, char.2 + 1⟩)

/-- The text as alignment tokens. -/
def tokens (text : List Char) (withBlanks : Bool) : List Token :=
  text.zipIdx.foldl (addTokens nfkc withBlanks) []

def tokenAt (tokens : List Token) (i : ℕ) : Token := tokens.getD i ⟨[], 0, 0⟩

def tokenValues (tokens : List Token) : List (List Char) := tokens.map Token.value

/-- The values that are no blanks. -/
def values (tokens : List Token) : List (List Char) :=
  (tokens.filter (fun token => ! contains blanks token.value)).map Token.value

/-- The values without the openers in front and the closers at the end. -/
def core (values : List (List Char)) : List (List Char) :=
  (values.dropWhile (contains (fold nfkc openers))).rdropWhile (contains (fold nfkc closers))

/-- A dash, or a long vowel that lengthens nothing. -/
def dashlike (values : List (List Char)) (i : ℕ) : Bool :=
  let value := values.getD i []
  contains engineDashes value
    || (value == [longVowel] && (i == 0 || ! isKana (first (values.getD (i - 1) []))))

def dashesFolded (values : List (List Char)) : List (List Char) :=
  values.zipIdx.map (fun value => if dashlike values value.2 then [dash] else value.1)

-- Alignments

/-- The opcodes, with rounds enough for any two sequences. -/
def opcodes (a b : List (List Char)) : List Opcode :=
  (SequenceMatcher.opcodes a b (2 * a.length + 1)).getD []

def matchCount (a b : List (List Char)) : ℕ :=
  (((SequenceMatcher.matchingBlocks a b (2 * a.length + 1)).getD []).map Match.size).sum

def ratio (a b : List (List Char)) : F :=
  if a.isEmpty && b.isEmpty then 1.0
  else 2.0 * (matchCount a b : F) / ((a.length + b.length : ℕ) : F)

-- Widths

def roundI (x : F) : ℤ := Floats.toInt (Floats.roundDigits x 0)

def isMark (char : Char) : Bool := "!?.".toList.contains char

/-- What is written for a run of marks. -/
def widenRun (F : Type) [Floats F] (before after : Option Char) (run : List Char) : List Char :=
  let isDots := run.headD ' ' == '.'
  let afterAscii := before.any isAsciiAlnum
  let beforeAscii := after.any isAsciiAlnum
  if afterAscii || (isDots && beforeAscii) || (isDots && run.length == 1) then run
  else if isDots then
    if run.length == 2 then ['‥']
    else List.replicate (max (roundI ((run.length : F) / 3.0)) 1).toNat ellipsis
  else if run.length == 1 then [if run.headD ' ' == '!' then '！' else '？']
  else run

/-- The loop of `widen_punctuation` over the characters and whether they are kept. -/
def widenFrom (F : Type) [Floats F] (before : Option Char) : List (Char × Bool) → List Char
  | [] => []
  | (char, kept) :: rest =>
      if ! isMark char || kept then char :: widenFrom F (some char) rest
      else
        let same := fun (other : Char × Bool) =>
          isMark other.1 && ! other.2 && (other.1 == '.') == (char == '.')
        let run := char :: (rest.takeWhile same).map Prod.fst
        widenRun F before ((rest.dropWhile same).head?.map Prod.fst) run
          ++ widenFrom F run.getLast? (rest.dropWhile same)
termination_by text => text.length
decreasing_by
  · simp
  · have shorter := (List.dropWhile_suffix (l := rest) same).length_le
    exact Nat.lt_succ_of_le shorter

/-- Full-width forms for the marks that nothing vouches for. -/
def widenPunctuation (F : Type) [Floats F] (text : List Char) (keep : Option (List Bool))
    : List Char :=
  if ! text.any isMark || ! text.any isJapanese then text
  else widenFrom F none (text.zip (keep.getD (text.map (fun _ => false))))

/-- Whether NFKC would lose the printed form, and it is one worth giving back. -/
def keepsWidth (text : List Char) : Bool :=
  if nfkc text = text then false
  else ! (0xFF61 ≤ (first text).toNat && (first text).toNat ≤ 0xFF9F)

-- Runaways

/-- How often the last unit is repeated, counted on. -/
def repeatCount (text : List Char) (unit : ℕ) : ℕ → ℕ → ℕ
  | 0, count => count
  | fuel + 1, count =>
      let n := text.length
      if slice text (n - unit * (count + 1)) (n - unit * count) = text.drop (n - unit) then
        repeatCount text unit fuel (count + 1)
      else count

/-- The length of a tail of one short unit repeated, else 0. -/
def repeatedTail (text : List Char) : ℕ :=
  (List.range' 1 repeatMaxUnit).foldl (fun best unit =>
    if text.length < unit * repeatMinCount then best
    else
      let count := repeatCount text unit text.length 1
      if repeatMinCount ≤ count then max best (unit * count) else best) 0

def cellsOf (text : List Char) : F :=
  Floats.sum (text.map (fun char => if isAsciiAlnum char then 0.5 else 1.0))

def engineLooped (F : Type) [Floats F] (vlm : List Char) (cells axis : ℤ) : Bool :=
  let text := fold nfkc vlm
  let repeated := repeatedTail text
  if cells ≤ 0 ∨ text = [] ∨ repeated = 0 then false
  else if (loopRatio : F) * (cells : F) + runawaySlack < cellsOf text then true
  else if (repeated : F) < loopMinShare * (text.length : F) then false
  else
    let room := if 0 < axis then axis else cells
    (loopRatio : F) * (room : F) + runawaySlack < cellsOf (text.drop (text.length - repeated))

def isRunaway (F : Type) [Floats F] (text ctc : List Char) (cells : ℤ) : Bool :=
  let room : F := max2 (cellsOf (fold nfkc ctc)) (cells : F)
  if room ≤ 0.0 then false
  else
    let length : F := cellsOf (fold nfkc text)
    if runawayRatio * room + runawaySlack < length then true
    else room + runawaySlack < length && decide (0 < repeatedTail text)

-- Lines

/-- Where a line's text came from. -/
inductive Source where
  | merged
  | ctc
  deriving DecidableEq

/-- One line after the merge. -/
structure Reconciled (F : Type) where
  text : List Char
  vlm : List Char
  ctc : List Char
  agreement : Option F
  source : Source
  notes : List String
  second : Option (List Char)
  engineOnly : Bool
  confirmed : Bool

def Reconciled.new (text vlm ctc : List Char) (agreement : Option F) (source : Source)
    (notes : List String) : Reconciled F where
  text
  vlm
  ctc
  agreement
  source
  notes
  second := none
  engineOnly := false
  confirmed := false

-- Dashes

/-- The CTC tokens that stand for the dash, without a closer at the end and an opener in front. -/
def dashRun (theirs : List (List Char)) (j1 j2 : ℕ) : List (List Char) :=
  let j2 :=
    if j1 < j2 ∧ j2 = theirs.length ∧ contains (fold nfkc closers) (theirs.getD (j2 - 1) []) then
      j2 - 1
    else j2
  let j1 :=
    if j1 < j2 ∧ j1 = 0 ∧ contains (fold nfkc openers) (theirs.getD j1 []) then j1 + 1 else j1
  (theirs.take j2).drop j1

/-- The engine's single dash becomes the CTC reading's run of dashes. -/
def adoptDashRun (mine theirs : List Token) (adopted : List Char × ℕ) (op : Opcode)
    : List Char × ℕ :=
  let token := tokenAt mine op.i1
  if op.tag ≠ .replace ∨ op.i2 - op.i1 ≠ 1 then adopted
  else if token.value ≠ [longVowel] ∧ ¬ contains engineDashes token.value then adopted
  else
    let run := dashRun nfkc (tokenValues theirs) op.j1 op.j2
    if 2 ≤ run.length ∧ run.all (· = [dash]) then
      (adopted.1.take token.start ++ List.replicate run.length dash ++ adopted.1.drop token.stop,
        adopted.2 + 1)
    else adopted

def adoptDashRuns (vlmText ctcText : List Char) : List Char × ℕ :=
  let mine := tokens nfkc vlmText false
  let theirs := tokens nfkc ctcText true
  (opcodes (tokenValues mine) (tokenValues theirs)).reverse.foldl (adoptDashRun nfkc mine theirs)
    (vlmText, 0)

-- The merge

/-- What the loop over the opcodes reads. -/
structure Alignment (F : Type) where
  vlm : List Char
  ctc : List Char
  mine : List Token
  theirs : List Token
  ops : List Opcode
  sameLine : Bool
  thin : Bool
  confs : List F

/-- What the loop writes, by the places in the engine's text. -/
structure Merge where
  replace : ℕ → Option (ℕ × List Char)
  insertBefore : ℕ → Option (List Char)
  vouched : ℕ → Bool
  notes : List String

namespace Merge

def putReplace (merge : Merge) (start stop : ℕ) (text : List Char) (note : String) : Merge :=
  { merge with
    replace := Function.update merge.replace start (some (stop, text))
    notes := merge.notes ++ [note] }

def putInsert (merge : Merge) (place : ℕ) (text : List Char) (note : String) : Merge :=
  { merge with
    insertBefore := Function.update merge.insertBefore place (some text)
    notes := merge.notes ++ [note] }

def addInsert (merge : Merge) (place : ℕ) (text : List Char) (note : String) : Merge :=
  merge.putInsert place ((merge.insertBefore place).getD [] ++ text) note

end Merge

/-- Three dots as one glyph. -/
def foldDots : List Char → List Char
  | '.' :: '.' :: '.' :: rest => ellipsis :: foldDots rest
  | char :: rest => char :: foldDots rest
  | [] => []

/-- The CTC reading's printed form of an agreed token, if it differs. -/
def printedForm (F : Type) [Floats F] (al : Alignment F) (mine theirs : Token)
    : Option (List Char) :=
  let engine := slice al.vlm mine.start mine.stop
  let printed := slice al.ctc theirs.start theirs.stop
  if engine = printed then none
  else if mine.value = [ellipsis] then
    if printed.all (fun char => char == '…' || char == '‥') then some printed
    else
      let dots := printed.countP (· == '.')
      let cells := (printed.countP (fun char => char == '…' || char == '‥') : ℤ)
        + roundI ((dots : F) / 3.0)
      if (foldDots engine).length < cells then some (List.replicate cells.toNat ellipsis) else none
  else if al.mine.countP (fun token => token.start == mine.start) ≠ 1 then none
  else if al.theirs.countP (fun token => token.start == theirs.start) ≠ 1 then none
  else if keepsWidth nfkc printed then some printed
  else none

/-- Whether the source is text, and every glyph of it was read with confidence. -/
def sureText (source : List Char) (confs : List F) (floor : F) : Bool :=
  let brackets := (openers ++ closers).filter (fun char => char != '。' && char != '、')
  let skipped := fun char => brackets.contains char || blanks.contains char
  ! source.isEmpty && confs.length == source.length
    && (source.zip confs).all (fun glyph => skipped glyph.1
      || ((isJapanese glyph.1 || "。、！？…‥".toList.contains glyph.1)
        && ! decide (glyph.2 < floor)))
    && source.any (fun char => ! skipped char)

/-- Whether the opcode is an `equal` one long enough to hold on to. -/
def anchored (al : Alignment F) (k : ℤ) (forward : Bool) : Bool :=
  match if k < 0 then none else al.ops[k.toNat]? with
  | none => false
  | some op =>
      let rest := if forward then al.mine.length - op.i1 else op.i2
      op.tag == .equal && decide (min anchorGlyphs rest ≤ op.i2 - op.i1)

/-- One pair of tokens of an `equal` opcode. -/
def agree (al : Alignment F) (merge : Merge) (pair : Token × Token) : Merge :=
  let merge :=
    match printedForm nfkc F al pair.1 pair.2 with
    | some printed => merge.putReplace pair.1.start pair.1.stop printed "width"
    | none => merge
  { merge with
    vouched := fun i => merge.vouched i || decide (pair.1.start ≤ i ∧ i < pair.1.stop) }

/-- What is made of an opcode that is not `equal`. -/
inductive Verdict where
  | refused
  /-- The text is inserted, alone or after what is inserted there already. -/
  | put (text : List Char) (note : String)
  | add (text : List Char) (note : String)
  /-- The text replaces the opcode's characters. -/
  | swap (text : List Char) (note : String)

/-- The verdict on an opcode that is not `equal`, with something of the CTC reading in it. -/
def verdict (al : Alignment F) (op : Opcode) (k : ℤ) : Verdict :=
  let mineValues := tokenValues al.mine
  let added := ((tokenValues al.theirs).take op.j2).drop op.j1
  let sourceStart := (tokenAt al.theirs op.j1).start
  let sourceStop := (tokenAt al.theirs (op.j2 - 1)).stop
  let source := slice al.ctc sourceStart sourceStop
  let thin := if al.thin then thinGlyphs else []
  let stretch := slice al.confs sourceStart sourceStop
  let before := op.i1 = 0 ∨ anchored al (k - 1) false
  let after := op.i1 = al.mine.length ∨ anchored al (k + 1) true
  let hasDash := source.contains dash
  if op.tag = .insert ∧ op.i1 = 0 ∧ added.all (contains (fold nfkc openers ++ thin)) then
    if anchored al (k + 1) true then
      .put source (if contains (fold nfkc openers) (added.headD []) then "opener" else "thin")
    else .refused
  else if op.tag = .insert ∧ op.i1 = al.mine.length
      ∧ added.all (contains (fold nfkc closers ++ thin)) then
    if anchored al (k - 1) false then
      .put source (if contains (fold nfkc closers) (added.getLastD []) then "closer" else "thin")
    else .refused
  else if op.tag = .insert ∧ sureText source stretch skippedMinConf then
    if before ∧ after then .add source "skipped" else .refused
  else if op.tag = .replace
      ∧ ((mineValues.take op.i2).drop op.i1).all (fun value =>
        isPlainKana (first value) && value.length == 1)
      ∧ source.all isPlainKana ∧ stretch ≠ [] ∧ kanaStandsConf ≤ minOf stretch then
    .swap source "kana"
  else if source.all (· == ' ') then
    let around := (mineValues.take (op.i1 + 1)).drop (op.i1 - 1)
    if op.tag = .insert ∧ 0 < op.i1 ∧ around.length = 2
        ∧ around.all (fun value => value.length == 1 && isAsciiAlnum (first value))
        ∧ (anchored al (k - 1) false ∨ anchored al (k + 1) true) then
      .add [' '] "space"
    else .refused
  else if source.any (fun char => char != ideographicSpace && char != dash) then .refused
  else if ¬ (List.range' op.i1 (op.i2 - op.i1)).all (dashlike mineValues) then .refused
  else
    let besideDash := (0 < op.i1 ∧ dashlike mineValues (op.i1 - 1))
      ∨ (op.i2 < al.mine.length ∧ dashlike mineValues op.i2)
    let afterMark := 0 < op.i1 ∧ contains "!?".toList (mineValues.getD (op.i1 - 1) [])
    let note := if hasDash then "dash" else "space"
    if op.i1 < op.i2 then .swap source note
    else if (hasDash ∧ besideDash) ∨ (¬ hasDash ∧ afterMark) then .add source note
    else .refused

/-- Where the opcode inserts. -/
def placeOf (al : Alignment F) (op : Opcode) : ℕ :=
  if op.i1 < al.mine.length then (tokenAt al.mine op.i1).start else al.vlm.length

def differ (al : Alignment F) (merge : Merge) (op : Opcode) (k : ℤ) : Merge :=
  match verdict nfkc al op k with
  | .refused => merge
  | .put text note => merge.putInsert (placeOf al op) text note
  | .add text note => merge.addInsert (placeOf al op) text note
  | .swap text note =>
      merge.putReplace (tokenAt al.mine op.i1).start (tokenAt al.mine (op.i2 - 1)).stop text note

/-- The body of the loop over the opcodes. -/
def mergeOp (al : Alignment F) (merge : Merge) (op : Opcode × ℕ) : Merge :=
  let (op, k) := op
  if op.tag = .equal then
    (((al.mine.take op.i2).drop op.i1).zip ((al.theirs.take op.j2).drop op.j1)).foldl
      (agree nfkc al) merge
  else if al.sameLine = false ∨ op.j2 = op.j1 then merge
  else differ nfkc al merge op k

/-- The loop of `assemble`: the characters from the place on, and whether each is kept. -/
def assembleFrom (vlm : List Char) (merge : Merge) : ℕ → ℕ → List (Char × Bool)
  | 0, _ => []
  | fuel + 1, i =>
      let inserted := ((merge.insertBefore i).getD []).map (fun char => (char, true))
      match vlm[i]? with
      | none => if i = vlm.length then inserted else []
      | some char =>
          match merge.replace i with
          | some (stop, text) =>
              inserted ++ text.map (fun char => (char, true)) ++ assembleFrom vlm merge fuel stop
          | none =>
              inserted ++ [(char, merge.vouched i)] ++ assembleFrom vlm merge fuel (i + 1)

/-- The merged text; marks that nothing vouches for get the default width. -/
def assemble (F : Type) [Floats F] (vlm : List Char) (merge : Merge) : List Char :=
  let out := assembleFrom vlm merge (vlm.length + 1) 0
  widenPunctuation F (out.map Prod.fst) (some (out.map Prod.snd))

def dedupe (notes : List String) : List String :=
  notes.foldl (fun out note => if note ∈ out then out else out ++ [note]) []

/-- Whether the CTC reading opens or closes with a bracket that the merged text does not have. -/
def lacksEndBracket (merged theirs : List (List Char)) : Bool :=
  match theirs.head?, theirs.getLast? with
  | some head, some last =>
      let brackets := (fold nfkc closers).filter (fun char => char != '。' && char != '、')
      (contains (fold nfkc openers) head && merged.head? != some head)
        || (contains brackets last && merged.getLast? != some last)
  | _, _ => false

/-- The line of an engine that nothing was read beside. -/
def engineAlone (vlm ctc vlmText : List Char) (cells : ℤ) : Reconciled F :=
  let text := widenPunctuation F vlmText none
  if engineLooped nfkc F vlmText cells 0 then
    let cut := text.take (text.length - repeatedTail text)
    let stop := if 0 ≤ cells then cells.toNat else (text.length + cells).toNat
    let text := if cut = [] then text.take stop else cut
    { Reconciled.new text vlm ctc none .merged ["runaway"] with engineOnly := true }
  else { Reconciled.new text vlm ctc none .merged [] with engineOnly := true }

/-- The alignment of the engine's text with what the CTC read. -/
def alignment (vlmText ctcText : List Char) (thin : Bool) (confs : List F) : Alignment F :=
  let mine := tokens nfkc vlmText false
  let theirs := tokens nfkc ctcText true
  let folded := dashesFolded (tokenValues mine)
  {
    vlm := vlmText
    ctc := ctcText
    mine
    theirs
    ops := opcodes (tokenValues mine) (tokenValues theirs)
    sameLine := patchMinAgreement
      ≤ max2 (ratio folded (core nfkc (values theirs)) : F) (ratio folded (values theirs))
    thin
    confs
  }

/-- What the loop over the opcodes starts from and leaves. -/
def mergeOf (al : Alignment F) (dashRuns : ℕ) : Merge :=
  al.ops.zipIdx.foldl (mergeOp nfkc al)
    ⟨fun _ => none, fun _ => none, fun _ => false, if 0 < dashRuns then ["dash"] else []⟩

/-- What is made of the merged text. -/
def concludeMerge (vlm ctc : List Char) (cells : ℤ) (ctcConf : Option F) (al : Alignment F)
    (merge : Merge) : Reconciled F :=
  let theirValues := values al.theirs
  let merged := assemble F al.vlm merge
  let notes := dedupe merge.notes ++ if al.sameLine then [] else ["disagree"]
  let mergedValues := values (tokens nfkc merged false)
  let theirCore := core nfkc theirValues
  if isRunaway nfkc F merged al.ctc cells then
    Reconciled.new al.ctc vlm ctc (some (ratio (tokenValues al.mine) theirValues)) .ctc
      (notes ++ ["runaway"])
  else if ctcConf.any (fun conf => shortLineMinConf ≤ conf)
      ∧ theirCore.length ≤ shortLineGlyphs ∧ core nfkc mergedValues ≠ theirCore
      ∧ (theirCore.any (fun value => isKanji (first value))
        ∨ (theirCore.any (fun value => isJapanese (first value)) ∧ ¬ merged.any isJapanese)
        ∨ lacksEndBracket nfkc mergedValues theirValues) then
    Reconciled.new al.ctc vlm ctc (some (ratio (tokenValues al.mine) theirValues)) .ctc
      (notes ++ ["short"])
  else
    { Reconciled.new merged vlm ctc (some (ratio mergedValues theirValues)) .merged notes with
      engineOnly := ctcConf.any (fun conf => conf < ctcDoubtConf) && ! al.sameLine }

/-- The confidences of the CTC characters, if there is one for each. -/
def usedConfs (ctc : List Char) (ctcCharConfs : Option (List F)) : List F :=
  let confs := ctcCharConfs.getD []
  if confs.length ≠ (strip ctc).length ∨ (strip ctc).length ≠ ctc.length then [] else confs

/-- `reconcile_line`. -/
def reconcileLine (vlm ctc : List Char) (cells : ℤ) (thin : Bool) (ctcConf : Option F)
    (ctcCharConfs : Option (List F)) : Reconciled F :=
  let vlmText := vlm.filter (fun char => ! isSpace char)
  let ctcText := strip ctc
  let confs := usedConfs ctc ctcCharConfs
  if vlmText = [] then
    Reconciled.new ctcText vlm ctc none .ctc (if ctcText = [] then [] else ["empty"])
  else
    let (vlmText, dashRuns) := adoptDashRuns nfkc vlmText ctcText
    if values (tokens nfkc ctcText true) = [] then engineAlone nfkc vlm ctc vlmText cells
    else
      let al := alignment nfkc vlmText ctcText thin confs
      concludeMerge nfkc vlm ctc cells ctcConf al (mergeOf nfkc al dashRuns)

end MokuroBunko.Layout.Reconcile
