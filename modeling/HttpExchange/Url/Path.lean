import HttpExchange.Bytes

/-!
# Dot segments

A path is a list of segments, each after its slash. A `.` segment says nothing and a `..`
segment takes back the one before it; as the last segment either leaves an empty one,
so that the path still ends in a slash. Empty segments count as segments. So does libcurl 7.88.1
resolve a path.
-/

namespace HttpExchange

namespace UrlPath

def here : Bytes := [Byte.dot]

def up : Bytes := [Byte.dot, Byte.dot]

/-- The texts between the slashes, an empty one at the end included. -/
def segments : Bytes → List Bytes
  | [] => [[]]
  | b :: rest =>
    if b = Byte.slash then [] :: segments rest
    else match segments rest with
      | [] => [[b]]
      | segment :: more => (b :: segment) :: more

/-- The segments that remain, after the segments already kept (the last one first). -/
def resolve (kept : List Bytes) : List Bytes → List Bytes
  | [] => kept.reverse
  | [last] =>
    if last = here then (([] : Bytes) :: kept).reverse
    else if last = up then (([] : Bytes) :: kept.tail).reverse
    else (last :: kept).reverse
  | segment :: rest =>
    if segment = here then resolve kept rest
    else if segment = up then resolve kept.tail rest
    else resolve (segment :: kept) rest

/-- The path without its dot segments; the text before the first slash is empty. -/
def normalize (path : Bytes) : Bytes :=
  (resolve [] (segments path).tail).flatMap fun segment => Byte.slash :: segment

end UrlPath

end HttpExchange
