import SqlGateway.Value.Basic

/-!
# Calls

What the gateway asks of the outside: of the document store above all, and of the clock and the
source of random numbers.  `Call.kind` forgets the arguments of a call.
-/

namespace SqlGateway.Store

structure Place where
  database : String
  collection : String
  deriving DecidableEq, Repr

inductive CallKind where
  | connect
  | ping
  | databaseNames
  | collectionNames
  | describeCollections
  | createCollection
  | dropCollection
  | find
  | sort
  | skip
  | limit
  | aggregate
  | findOne
  | insertOne
  | insertMany
  | updateMany
  | updateOne
  | deleteMany
  | createIndex
  | indexes
  | drop
  | pause
  | random
  deriving DecidableEq, Repr

inductive Call where
  | connect (address : Value)
  | ping
  | databaseNames
  | collectionNames (database : String)
  | describeCollections (database : String) (filter : Document)
  | createCollection (database : String) (name : Value) (options : Document)
  | dropCollection (database : String) (name : Value)
  | find (place : Place) (filter projection : Value)
  | sort (place : Place) (keys : Document)
  | skip (place : Place) (count : Value)
  | limit (place : Place) (count : Value)
  | aggregate (place : Place) (pipeline : Value)
  | findOne (place : Place) (filter : Document)
  | insertOne (place : Place) (document : Value)
  | insertMany (place : Place) (documents : Value)
  | updateMany (place : Place) (filter update : Value)
  | updateOne (place : Place) (filter update : Document)
  | deleteMany (place : Place) (filter : Value)
  | createIndex (place : Place) (keys unique name : Value)
  | indexes (place : Place)
  | drop (place : Place)
  | pause (seconds : Value)
  | random (bound : Nat)
  deriving DecidableEq, Repr

def Call.kind : Call → CallKind
  | connect _ => .connect
  | ping => .ping
  | databaseNames => .databaseNames
  | collectionNames _ => .collectionNames
  | describeCollections _ _ => .describeCollections
  | createCollection _ _ _ => .createCollection
  | dropCollection _ _ => .dropCollection
  | find _ _ _ => .find
  | sort _ _ => .sort
  | skip _ _ => .skip
  | limit _ _ => .limit
  | aggregate _ _ => .aggregate
  | findOne _ _ => .findOne
  | insertOne _ _ => .insertOne
  | insertMany _ _ => .insertMany
  | updateMany _ _ _ => .updateMany
  | updateOne _ _ _ => .updateOne
  | deleteMany _ _ => .deleteMany
  | createIndex _ _ _ _ => .createIndex
  | indexes _ => .indexes
  | drop _ => .drop
  | pause _ => .pause
  | random _ => .random

end SqlGateway.Store
