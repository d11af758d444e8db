import Parlance.Text.ClusterClass

/-!
# Clusters and backspaces

A text is cut into clusters, each of which a reader takes for one character. Cutting loses nothing:
the clusters of a text, put together again, are the text. A backspace takes away the cluster before
it.
-/

namespace Parlance.Text

/-- Whether a character class ends every cluster and starts a new one. -/
def ClusterClass.standsAlone : ClusterClass → Bool
  | .control => true
  | .carriageReturn => true
  | .lineFeed => true
  | _ => false

/-- Whether two jamos or syllables that follow each other belong to one syllable. -/
def ClusterClass.sharesSyllable : ClusterClass → ClusterClass → Bool
  | .leading, .leading => true
  | .leading, .vowel => true
  | .leading, .openSyllable => true
  | .leading, .closedSyllable => true
  | .vowel, .vowel => true
  | .vowel, .trailing => true
  | .openSyllable, .vowel => true
  | .openSyllable, .trailing => true
  | .trailing, .trailing => true
  | .closedSyllable, .trailing => true
  | _, _ => false

/-- Whether a text, nearest character first, ends in a consonant and marks that wait for a second
consonant. -/
def awaitsConsonant (before : List Char) : Bool :=
  (before.takeWhile isConjunctMark).any isLinker &&
    ((before.dropWhile isConjunctMark).head?.map ClusterClass.of) == some .consonant

/-- Whether a text, nearest character first, ends in a pictograph and a joiner that waits for a
second one. -/
def awaitsPictograph : List Char → Bool
  | [] => false
  | joiner :: before =>
    ClusterClass.of joiner == .joiner &&
      ((before.dropWhile fun c => ClusterClass.of c == .extend).head?.map ClusterClass.of) ==
        some .pictograph

/-- Whether a text, nearest character first, ends in an odd number of regional indicators. -/
def awaitsRegional (before : List Char) : Bool :=
  (before.takeWhile fun c => ClusterClass.of c == .regional).length % 2 == 1

/-- Whether a character belongs to the cluster before it, which is given nearest character first. -/
def joinsCluster (cluster : List Char) (c : Char) : Bool :=
  match cluster with
  | [] => false
  | last :: _ =>
    let left := ClusterClass.of last
    let right := ClusterClass.of c
    if left == .carriageReturn && right == .lineFeed then true
    else if left.standsAlone || right.standsAlone then false
    else
      left.sharesSyllable right || left == .prepended || right == .extend || right == .joiner ||
        right == .spacingMark || (right == .consonant && awaitsConsonant cluster) ||
        (right == .pictograph && awaitsPictograph cluster) ||
        (right == .regional && awaitsRegional cluster)

/-- The clusters of a text whose first cluster has already begun; what there is of it is given
nearest character first. -/
def clustersFrom (cluster : List Char) : List Char → List (List Char)
  | [] => [cluster.reverse]
  | c :: rest =>
    if joinsCluster cluster c then clustersFrom (c :: cluster) rest
    else cluster.reverse :: clustersFrom [c] rest

/-- The clusters of a text. -/
def clusters : List Char → List (List Char)
  | [] => []
  | c :: rest => clustersFrom [c] rest

theorem flatten_clustersFrom (cluster text : List Char) :
    (clustersFrom cluster text).flatten = cluster.reverse ++ text := by
  induction text generalizing cluster with
  | nil => simp [clustersFrom]
  | cons c rest ih =>
    by_cases h : joinsCluster cluster c
    · simp [clustersFrom, h, ih]
    · simp [clustersFrom, h, ih]

/-- Nothing is lost between the clusters of a text. -/
@[simp] theorem flatten_clusters (text : List Char) : (clusters text).flatten = text := by
  cases text with
  | nil => rfl
  | cons c rest => simp [clusters, flatten_clustersFrom]

/-- How many bytes a text takes. -/
def byteSize (text : List Char) : Nat :=
  text.foldl (fun n c => n + c.utf8Size) 0

/-- A text, nearest character first, without the given number of bytes at its end. A character
cannot be cut in two. -/
def dropBytes? : Nat → List Char → Option (List Char)
  | 0, before => some before
  | _ + 1, [] => none
  | n + 1, c :: before =>
    if n + 1 < c.utf8Size then none else dropBytes? (n + 1 - c.utf8Size) before

/-- A line that is being typed: its text, nearest character first, and the sizes of its clusters. -/
structure Typed where
  text : List Char := []
  sizes : List Nat := []

/-- Types one cluster. The size of a cluster is kept in one byte, and a backspace takes as many
bytes off the line as that byte says. -/
def Typed.press? (typed : Typed) (cluster : List Char) : Option Typed :=
  if cluster == ['\x08'] then
    match typed.sizes with
    | [] => some typed
    | size :: sizes => (dropBytes? size typed.text).map fun text => ⟨text, sizes⟩
  else
    some ⟨cluster.reverse ++ typed.text, byteSize cluster % 256 :: typed.sizes⟩

/-- A line with its backspaces carried out, if that cuts no character in two. -/
def applyBackspaces? (text : List Char) : Option (List Char) :=
  ((clusters text).foldlM Typed.press? {}).map fun typed => typed.text.reverse

end Parlance.Text
