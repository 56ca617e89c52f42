import OrdersApi.Proof.Delivery
import OrdersApi.Proof.Once
import OrdersApi.Proof.Api
import OrdersApi.Proof.Deadlock
import OrdersApi.Proof.Drain
import OrdersApi.Proof.Spread
import OrdersApi.Proof.Correlation
import OrdersApi.Proof.Storable
import OrdersApi.Proof.DatabaseUrl
import OrdersApi.Proof.Secrets
import OrdersApi.Proof.Ledger
import OrdersApi.Proof.Effort
import OrdersApi.Proof.Progress
import OrdersApi.Proof.Recovery
import OrdersApi.Proof.Message
import OrdersApi.Proof.Loop
import OrdersApi.Proof.Request
import OrdersApi.Proof.Metrics
import OrdersApi.Proof.Migrations
import OrdersApi.Proof.Consumer
import OrdersApi.Proof.Holding
import OrdersApi.Proof.Session
