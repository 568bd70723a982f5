import TypesenseHttp.Text
import TypesenseHttp.Query
import TypesenseHttp.Route
import TypesenseHttp.Dispatch
import TypesenseHttp.Stream
import TypesenseHttp.Relay
import TypesenseHttp.Teardown
import TypesenseHttp.Lifecycle
